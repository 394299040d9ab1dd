/-
Catalog mutations, one after the other.

A mutation that runs alone executes its body, meets the declared constraints or is rolled
back by an IntegrityError, publishes and commits.  One that fails leaves the tables.
What `create_restaurant` and `create_branch` answer after an IntegrityError is left out
here: alone they meet none of their own making.

* `Db.call` — a mutation with the values that it draws: its answer and what it commits;
* `invoke` — as a step of the tables; `Called`, `call_called` — what it can come to;
* `mem_insertRows`, `mem_deleteRows` — the rows after a statement;
* `Regular` — what holds of the tables after any sequence of mutations.
-/
import SmartFoodOps.Catalog.Publishing

open Keyed Machine Program

namespace Catalog

/-- How a mutation answers. -/
inductive Answer
  | answered
  | raised (e : CatalogError)
  /-- An IntegrityError. -/
  | violated
  deriving DecidableEq, Repr

section

variable (defaultTimezone : String) (purposeOf : ℕ → Purpose)

/-- A mutation, alone on the tables: its answer, and the writes that it commits. -/
def Db.call (db : Db) (call : Call) (draws : List ℕ) : Option (Answer × List Write) :=
  ((call.body defaultTimezone).run Write.apply (Drawn purposeOf) db [] draws).bind fun
    | (.error e, _) => some (.raised e, [])
    | (.ok (none, _), _) => some (.answered, [])
    | (.ok (some target, edits), rest) =>
      if (applyWrites edits db).Valid then
        ((publish target.restaurant target.event).run Write.apply (Drawn purposeOf) db edits
          rest).map fun
          | (.error e, _) => (.raised e, [])
          | (.ok (_, ws), _) => (.answered, ws)
      else some (.violated, [])

/-- A mutation with the values that it draws. -/
abbrev Invocation := Call × List ℕ

def invoke (db : Db) (i : Invocation) : Option Db :=
  (db.call defaultTimezone purposeOf i.1 i.2).map fun (_, ws) => applyWrites ws db

end

variable {zone : String} {purposeOf : ℕ → Purpose} {db db' : Db} {r o : RestaurantId}
  {call : Call} {draws : List ℕ} {ans : Answer} {ws edits staged : List Write} {target : Target}
  {affected : List RestaurantId}

/-- What a mutation that commits has done. -/
structure Commits (zone : String) (purposeOf : ℕ → Purpose) (db : Db) (call : Call)
    (target : Target) (edits staged : List Write) (affected : List RestaurantId) : Prop where
  body : Alone purposeOf (call.body zone) db (some target) edits
  valid : (applyWrites edits db).Valid
  publishes : Alone purposeOf (publish target.restaurant target.event) (applyWrites edits db)
    affected staged

/-- The result of a mutation's body, alone. -/
abbrev Call.bodyRun (zone : String) (purposeOf : ℕ → Purpose) (call : Call) (db : Db)
    (draws : List ℕ) : Option (Except CatalogError (Option Target × List Write) × List ℕ) :=
  (call.body zone).run Write.apply (Drawn purposeOf) db [] draws

/-- What a mutation can come to. -/
inductive Called (zone : String) (purposeOf : ℕ → Purpose) (db : Db) (call : Call)
    (draws : List ℕ) : Answer → List Write → Prop
  | refused {e : CatalogError} {rest : List ℕ} :
      call.bodyRun zone purposeOf db draws = some (.error e, rest) →
        Called zone purposeOf db call draws (.raised e) []
  | same {edits : List Write} {rest : List ℕ} :
      call.bodyRun zone purposeOf db draws = some (.ok (none, edits), rest) →
        Called zone purposeOf db call draws .answered []
  | violated {target : Target} {edits : List Write} {rest : List ℕ} :
      call.bodyRun zone purposeOf db draws = some (.ok (some target, edits), rest) →
        ¬ (applyWrites edits db).Valid → Called zone purposeOf db call draws .violated []
  | unpublished {target : Target} {edits : List Write} {rest : List ℕ} {e : CatalogError} :
      call.bodyRun zone purposeOf db draws = some (.ok (some target, edits), rest) →
        (applyWrites edits db).Valid → Called zone purposeOf db call draws (.raised e) []
  | commits {target : Target} {edits staged : List Write} {affected : List RestaurantId}
      {rest : List ℕ} :
      call.bodyRun zone purposeOf db draws = some (.ok (some target, edits), rest) →
        Commits zone purposeOf db call target edits staged affected →
          Called zone purposeOf db call draws .answered (edits ++ staged)

theorem call_called (h : db.call zone purposeOf call draws = some (ans, ws)) :
    Called zone purposeOf db call draws ans ws := by
  obtain ⟨⟨res, rest⟩, hbody, h⟩ := Option.bind_eq_some_iff.mp h
  rcases res with e | ⟨_ | target, edits⟩
  · cases h
    exact .refused hbody
  · cases h
    exact .same hbody
  · simp only at h
    split at h
    · next hvalid =>
      obtain ⟨⟨res', rest'⟩, hpub, h⟩ := Option.map_eq_some_iff.mp h
      rcases res' with e | ⟨affected, ws'⟩
      · cases h
        exact .unpublished hbody hvalid
      · cases h
        obtain ⟨w, rfl, hb⟩ := run_outcome Write.apply (Drawn purposeOf) hbody
        obtain ⟨staged, rfl, hp⟩ := run_outcome Write.apply (Drawn purposeOf) hpub
        exact .commits hbody ⟨hb, hvalid, hp⟩
    · next hvalid =>
      cases h
      exact .violated hbody hvalid

/-- A mutation that writes has committed. -/
theorem call_cases (h : db.call zone purposeOf call draws = some (ans, ws)) :
    ws = [] ∨ ∃ target edits staged affected, ans = .answered ∧ ws = edits ++ staged ∧
      Commits zone purposeOf db call target edits staged affected := by
  cases call_called h with
  | commits _ hc => exact .inr ⟨_, _, _, _, rfl, rfl, hc⟩
  | _ => exact .inl rfl

/-! ### The rows after a statement -/

section

variable {row : Row} {rows : List Row} {keys : List Key} {p : Patch}

theorem mem_deleteRows :
    row ∈ applyWrites (keys.map .delete) db ↔ row ∈ db ∧ row.key ∉ keys := by
  induction keys generalizing db with
  | nil => simp
  | cons k keys ih =>
    rw [List.map_cons, applyWrites_cons, ih, mem_delete, List.mem_cons, not_or, and_assoc]

theorem mem_insertRows (hfresh : ∀ x ∈ rows, ∀ y ∈ db, y.key ≠ x.key)
    (hnodup : (rows.map Row.key).Nodup) :
    row ∈ applyWrites (rows.map .insert) db ↔ row ∈ rows ∨ row ∈ db := by
  induction rows generalizing db with
  | nil => simp
  | cons x rows ih =>
    obtain ⟨hx, hrows⟩ := List.forall_mem_cons.mp hfresh
    rw [List.map_cons, List.nodup_cons] at hnodup
    have hmem : ∀ y : Row, y ∈ (Write.insert x).apply db ↔ y = x ∨ y ∈ db := by
      intro y
      rw [mem_insert]
      exact or_congr_right (and_iff_left_of_imp fun hy => hx y hy)
    rw [List.map_cons, applyWrites_cons, ih ?_ hnodup.2, hmem, List.mem_cons]
    · tauto
    · intro z hz y hy
      rcases (hmem y).mp hy with rfl | hy
      · intro hk
        exact hnodup.1 (hk ▸ List.mem_map_of_mem hz)
      · exact hrows z hz y hy

theorem alone_insertRows {u : Unit} (h : Alone purposeOf (insertRows rows) db u ws) :
    ws = rows.map .insert ∧ (∀ x ∈ rows, db.find x.key = none) ∧
      ∀ row : Row, row ∈ applyWrites ws db ↔ row ∈ rows ∨ row ∈ db := by
  have h := (outcome_execute Write.apply (Drawn purposeOf)).mp h
  split at h
  · next hnew =>
    cases h
    refine ⟨rfl, hnew.1, fun row => mem_insertRows (fun x hx => ?_) hnew.2⟩
    exact Table.find_eq_none.mp (hnew.1 x hx)
  · cases h

theorem alone_deleteRows {keys : Db → List Key} {u : Unit}
    (h : Alone purposeOf (deleteRows keys) db u ws) :
    ws = (keys db).map .delete ∧
      ∀ row : Row, row ∈ applyWrites ws db ↔ row ∈ db ∧ row.key ∉ keys db := by
  cases (outcome_execute Write.apply (Drawn purposeOf)).mp h
  exact ⟨rfl, fun _ => mem_deleteRows⟩

/-- The cuisines that are set are the restaurant's, and all else stays. -/
theorem alone_setCuisines {id : RestaurantId} {cuisines : List String} {u : Unit}
    (h : Alone purposeOf (setCuisines id cuisines) db u ws) (row : Row) :
    row ∈ applyWrites ws db ↔ (∃ c ∈ cuisines, row = .restaurantCuisine id c) ∨
      row ∈ db ∧ ∀ c, row ≠ .restaurantCuisine id c := by
  obtain ⟨_, w, w', hdel, rfl, hins⟩ := alone_bind h
  obtain ⟨-, hrest⟩ := alone_deleteRows hdel
  obtain ⟨-, -, hmem⟩ := alone_insertRows hins
  rw [applyWrites_append, hmem, hrest]
  refine or_congr ?_ (and_congr_right fun hrow => ?_)
  · rw [List.mem_map]
    exact exists_congr fun c => and_congr_right fun _ => eq_comm
  · constructor
    · rintro hnot c rfl
      exact hnot (List.mem_map.mpr ⟨c, mem_cuisines.mpr hrow, rfl⟩)
    · intro hne hk
      obtain ⟨c, -, hk⟩ := List.mem_map.mp hk
      cases row <;> cases hk
      exact hne _ rfl

/-! ### New restaurants -/

/-- What a new branch is. -/
structure NewBranch (purposeOf : ℕ → Purpose) (db : Db) (brandId : RestaurantId)
    (b : RestaurantRow) (m : BranchMetadata) : Prop where
  drawn : purposeOf b.id = .branch brandId
  fresh : db.find (.restaurant b.id) = none
  kind : b.kind = .branch
  metadata : m.restaurantId = b.id
  brand : m.brandId = brandId

theorem alone_insertBranch {ownerUserId name label : String} {place : Place} {timezone : String}
    {brandId id : RestaurantId}
    (h : Alone purposeOf (insertRestaurant ownerUserId name place timezone (.branch brandId label))
      db id ws) :
    ∃ b m, b.id = id ∧ b.name = name ∧ NewBranch purposeOf db brandId b m ∧
      ∀ row : Row, row ∈ applyWrites ws db ↔
        row = .branchMetadata m ∨ row = .restaurant b ∨ row ∈ db := by
  obtain ⟨u, hu, h⟩ := alone_after_read h fun _ _ => alone_draw
  obtain ⟨_, w, w', hrow, rfl, hrest⟩ := alone_bind h
  obtain ⟨_, w₁, w₂, hmeta, rfl, rfl, rfl⟩ := alone_bind hrest
  obtain ⟨-, hnew, hmem⟩ := alone_insertRows hrow
  obtain ⟨-, -, hmem'⟩ := alone_insertRows hmeta
  refine ⟨⟨id, ownerUserId, name, .branch⟩, ⟨id, brandId, label, place.city, place.lat, place.lon,
    .opened, place.hours, timezone⟩, rfl, rfl, ⟨hu, ?_, rfl, rfl, rfl⟩, fun row => ?_⟩
  · exact hnew _ (List.mem_singleton_self _)
  · rw [List.append_nil, applyWrites_append, hmem', hmem, List.mem_singleton, List.mem_singleton]

/-- The rows of a new branch beside those that are there. -/
def WithBranch (db db' : Db) (b : RestaurantRow) (m : BranchMetadata) (cuisines : List String) :
    Prop :=
  ∀ row : Row, row ∈ db' ↔ (∃ c ∈ cuisines, row = .restaurantCuisine b.id c) ∨
    (row = .branchMetadata m ∨ row = .restaurant b ∨ row ∈ db) ∧
      ∀ c, row ≠ .restaurantCuisine b.id c

theorem alone_createBranch {brandId : RestaurantId} {label : String} {place : Place}
    {timezone : Option String}
    (h : Alone purposeOf (createBranch zone brandId label place timezone) db (some target) ws) :
    ∃ brand b m, db.read brandId = some brand ∧ brand.kind = .brand ∧ b.name = brand.name ∧
      NewBranch purposeOf db brandId b m ∧ target.restaurant = b.id ∧
        WithBranch db (applyWrites ws db) b m brand.cuisines := by
  obtain ⟨brand, hbrand, h⟩ := alone_after_read h fun _ _ => alone_read
  split at h
  · exact h.elim
  · next hkind =>
    obtain ⟨existing, -, h⟩ := alone_after_read h alone_select
    split at h
    · cases h.1
    · obtain ⟨siblings, -, h⟩ := alone_after_read h alone_select
      split at h
      · exact h.elim
      · obtain ⟨id, w, w', hins, rfl, hrest⟩ := alone_bind h
        obtain ⟨_, w₁, w₂, hset, rfl, ht, rfl⟩ := alone_bind hrest
        cases ht
        obtain ⟨b, m, rfl, hname, hnew, hmem⟩ := alone_insertBranch hins
        refine ⟨brand, b, m, hbrand, not_not.mp hkind, hname, hnew, rfl, fun row => ?_⟩
        rw [List.append_nil, applyWrites_append, alone_setCuisines hset, hmem]

theorem alone_createRestaurant {owner name : String} {place : Place} {cuisines : List String}
    {timezone label : Option String}
    (h : Alone purposeOf (createRestaurant zone owner name place cuisines timezone label) db
      (some target) ws) :
    ∃ (brand b : RestaurantRow) (m : BranchMetadata) (db₁ : Db), purposeOf brand.id = .brand ∧
      db.find (.restaurant brand.id) = none ∧ brand.kind = .brand ∧ b.name = brand.name ∧
        NewBranch purposeOf db₁ brand.id b m ∧ target.restaurant = brand.id ∧
        (∀ row : Row, row ∈ db₁ ↔ (∃ c ∈ cuisines, row = .restaurantCuisine brand.id c) ∨
          (row = .restaurant brand ∨ row ∈ db) ∧ ∀ c, row ≠ .restaurantCuisine brand.id c) ∧
            WithBranch db₁ (applyWrites ws db) b m cuisines := by
  obtain ⟨existing, -, h⟩ := alone_after_read h alone_select
  split at h
  · cases h.1
  · obtain ⟨brand, w, w', hbrand, rfl, hrest⟩ := alone_bind h
    obtain ⟨_, w₁, w₂, hset, rfl, hrest'⟩ := alone_bind hrest
    obtain ⟨first, w₃, w₄, hfirst, rfl, hlast⟩ := alone_bind hrest'
    obtain ⟨_, w₅, w₆, hset', rfl, ht, rfl⟩ := alone_bind hlast
    cases ht
    obtain ⟨u, hu, hinsert⟩ := alone_after_read hbrand fun _ _ => alone_draw
    obtain ⟨_, w₇, w₈, hrow, rfl, rfl, rfl⟩ := alone_bind hinsert
    obtain ⟨-, hnew, hmem⟩ := alone_insertRows hrow
    obtain ⟨b, m, rfl, hname, hnew', hmem'⟩ := alone_insertBranch hfirst
    refine ⟨⟨brand, owner, name, .brand⟩, b, m, applyWrites w₁ (applyWrites (w₇ ++ []) db), hu,
      hnew _ (List.mem_singleton_self _), rfl, hname, hnew', rfl, fun row => ?_, fun row => ?_⟩
    · rw [alone_setCuisines hset, List.append_nil, hmem, List.mem_singleton]
    · simp only [List.append_nil, applyWrites_append]
      rw [← List.append_nil w₇, alone_setCuisines hset', hmem']

end

/-! ### What holds after any sequence of mutations -/

/-- Every branch has its metadata. -/
def Housed (db : Db) : Prop :=
  ∀ b, Row.restaurant b ∈ db → b.kind = .branch →
    ∃ m, Row.branchMetadata m ∈ db ∧ m.restaurantId = b.id

/-- **The invariant of the tables.** -/
structure Regular (purposeOf : ℕ → Purpose) (db : Db) : Prop where
  typed : db.Typed purposeOf
  valid : db.Valid
  housed : Housed db

section

variable {w : Write}

/-- A restaurant was there, with its kind, or these writes have inserted it. -/
theorem restaurant_back {b : RestaurantRow} (h : .restaurant b ∈ applyWrites ws db) :
    ∃ b₀, (.restaurant b₀ ∈ db ∨ .insert (.restaurant b₀) ∈ ws) ∧ b₀.id = b.id ∧
      b₀.kind = b.kind := by
  refine applyAll_induction (W := fun w : Write => w ∈ ws)
    (I := fun db' : Db => ∀ b, Row.restaurant b ∈ db' →
      ∃ b₀, (Row.restaurant b₀ ∈ db ∨ .insert (.restaurant b₀) ∈ ws) ∧ b₀.id = b.id ∧
        b₀.kind = b.kind) ?_ (fun _ hw => hw) ?_ b h
  · intro w db' hw hI b hb
    cases w with
    | insert row =>
      rcases mem_insert.mp hb with rfl | ⟨hmem, -⟩
      · exact ⟨b, .inr hw, rfl, rfl⟩
      · exact hI b hmem
    | update k p =>
      rcases mem_update.mp hb with ⟨hmem, -⟩ | ⟨x, hmem, -, hx⟩
      · exact hI b hmem
      · -- a patch keeps what the row is
        cases x with
        | restaurant b₁ =>
          obtain ⟨b₀, hb₀, hid, hkind⟩ := hI b₁ hmem
          cases p <;> (cases hx; exact ⟨b₀, hb₀, hid, hkind⟩)
        | _ => cases p <;> cases hx
    | delete k => exact hI b (mem_delete.mp hb).1
  · exact fun b hb => ⟨b, .inl hb, rfl, rfl⟩

/-- A metadata row that is there, or inserted, stays. -/
theorem metadata_stays {m : BranchMetadata} (hws : ∀ w ∈ ws, w.Typed purposeOf)
    (h : .branchMetadata m ∈ db ∨ .insert (.branchMetadata m) ∈ ws) :
    ∃ m', .branchMetadata m' ∈ applyWrites ws db ∧ m'.restaurantId = m.restaurantId := by
  have hkey : ∃ row ∈ applyWrites ws db, row.key = .branchMetadata m.restaurantId := by
    rcases h with h | h
    · exact key_persists_applyWrites (fun w hw => by rintro rfl; exact hws _ hw) ⟨_, h, rfl⟩
    · obtain ⟨ws₁, ws₂, rfl⟩ := List.append_of_mem h
      rw [applyWrites_append, applyWrites_cons]
      refine key_persists_applyWrites (fun w hw => ?_) ⟨_, mem_insert.mpr (.inl rfl), rfl⟩
      rintro rfl
      exact hws _ (List.mem_append_right _ (List.mem_cons_of_mem _ hw))
  obtain ⟨row, hrow, hk⟩ := hkey
  cases row with
  | branchMetadata m' => exact ⟨m', hrow, Key.branchMetadata.inj hk⟩
  | _ => cases hk

/-- Each branch that the writes insert comes with its metadata. -/
def Houses (ws : List Write) : Prop :=
  ∀ b, .insert (.restaurant b) ∈ ws → b.kind = .branch →
    ∃ m, .insert (.branchMetadata m) ∈ ws ∧ m.restaurantId = b.id

theorem Houses.append (h : Houses ws) (h' : Houses ws') : Houses (ws ++ ws') := by
  intro b hb hkind
  rcases List.mem_append.mp hb with hb | hb
  · obtain ⟨m, hm, hid⟩ := h b hb hkind
    exact ⟨m, List.mem_append_left _ hm, hid⟩
  · obtain ⟨m, hm, hid⟩ := h' b hb hkind
    exact ⟨m, List.mem_append_right _ hm, hid⟩

theorem houses_of_not_founds (hws : ∀ w ∈ ws, ¬ w.Founds) : Houses ws :=
  fun _ hb => absurd trivial (hws _ hb)

theorem Housed.apply (h : Housed db) (htyped : ∀ w ∈ ws, w.Typed purposeOf)
    (hws : Houses ws) : Housed (applyWrites ws db) := by
  intro b hb hkind
  obtain ⟨b₀, hback, hid, hkind₀⟩ := restaurant_back hb
  have hmeta : ∃ m, (Row.branchMetadata m ∈ db ∨ .insert (.branchMetadata m) ∈ ws) ∧
      m.restaurantId = b₀.id := by
    rcases hback with hb₀ | hb₀
    · obtain ⟨m, hm, hmid⟩ := h b₀ hb₀ (hkind₀.trans hkind)
      exact ⟨m, .inl hm, hmid⟩
    · obtain ⟨m, hm, hmid⟩ := hws b₀ hb₀ (hkind₀.trans hkind)
      exact ⟨m, .inr hm, hmid⟩
  obtain ⟨m, hm, hmid⟩ := hmeta
  obtain ⟨m', hm', hmid'⟩ := metadata_stays htyped hm
  exact ⟨m', hm', hmid'.trans (hmid.trans hid)⟩

theorem Write.Quiet.not_founds (h : w.Quiet) : ¬ w.Founds := by
  unfold Write.Quiet at h
  split at h
  · exact id
  · exact id
  · exact h.elim

/-! #### Programs that house the branches that they insert -/

/-- Whatever the statements see, the writes stay so that each branch comes with its
metadata. -/
def Housing (purposeOf : ℕ → Purpose) {α : Type} (p : Session α) (Q : α → Prop) : Prop :=
  ∀ ws, Houses ws → Ensures (Drawn purposeOf) (Db.Typed purposeOf) (Write.Typed purposeOf) p
    (fun a ws' => Q a ∧ Houses ws') ws

variable {α β : Type} {Q : α → Prop} {R : β → Prop} {L : Write → Prop}

theorem Housing.bind {p : Session α} {f : α → Session β} (hp : Housing purposeOf p Q)
    (hf : ∀ a, Q a → Housing purposeOf (f a) R) : Housing purposeOf (p >>= f) R := by
  intro ws hws
  refine ensures_bind.mpr ((hp ws hws).mono ?_)
  rintro a ws' ⟨ha, hws'⟩
  exact hf a ha ws' hws'

theorem Within.housing {p : Session α} (h : Within purposeOf L p Q) (hL : ∀ w, L w → ¬ w.Founds) :
    Housing purposeOf p Q := by
  intro ws hws
  rw [← List.append_nil ws]
  refine Ensures.append (((h [] (List.forall_mem_nil _)).weaken fun _ hw => hw.1).mono ?_)
  rintro a ws' ⟨ha, hws'⟩
  exact ⟨ha, hws.append (houses_of_not_founds fun w hw => hL w (hws' w hw))⟩

/-- A program that writes nothing. -/
theorem housing_of_reads {p : Session α} (h : Within purposeOf (fun _ => False) p Q) :
    Housing purposeOf p Q := h.housing fun _ hw => hw.elim

theorem housing_setCuisines (id : RestaurantId) (cuisines : List String) :
    Housing purposeOf (setCuisines id cuisines) fun _ => True :=
  (within_setCuisines id cuisines).housing fun _ hw => hw.2

/-- The row and the metadata of a new branch are inserted together. -/
theorem housing_insertBranch {owner name label : String} {place : Place} {timezone : String}
    {brandId : RestaurantId} (hbrand : purposeOf brandId = .brand) :
    Housing purposeOf (insertRestaurant owner name place timezone (.branch brandId label))
      fun _ => True := by
  intro ws hws u hu
  have hu : purposeOf u = .branch brandId := hu
  refine (ensures_branchRows hu hbrand rfl rfl rfl rfl fun _ ht _ => ht).mono fun _ ws' hws' => ⟨trivial, ?_⟩
  rw [hws'.2]
  refine hws.append fun b hb _ => ⟨_, List.mem_cons_of_mem _ (List.mem_singleton_self _), ?_⟩
  have hb : b.id = u := by simpa using congrArg RestaurantRow.id (by simpa using hb)
  exact hb.symm

theorem housing_createBranch (zone : String) (brandId : RestaurantId) (label : String)
    (place : Place) (timezone : Option String) :
    Housing purposeOf (createBranch zone brandId label place timezone) fun _ => True := by
  refine (housing_of_reads (within_read brandId)).bind fun brand hbrand => ?_
  obtain ⟨rfl, hbrand⟩ := hbrand
  split
  · exact housing_of_reads .fail
  · next hkind =>
    have hp := (hbrand.brand (not_not.mp hkind)).1
    refine (housing_of_reads (within_select (Q := fun _ => True) fun _ _ => trivial)).bind
      fun existing _ => ?_
    split
    · exact housing_of_reads (.ret trivial)
    refine (housing_of_reads (within_select (Q := fun _ => True) fun _ _ => trivial)).bind
      fun siblings _ => ?_
    split
    · exact housing_of_reads .fail
    refine (housing_insertBranch hp).bind fun id _ => ?_
    exact (housing_setCuisines id brand.cuisines).bind fun _ _ => housing_of_reads (.ret trivial)

theorem housing_createRestaurant (zone owner name : String) (place : Place)
    (cuisines : List String) (timezone label : Option String) :
    Housing purposeOf (createRestaurant zone owner name place cuisines timezone label)
      fun _ => True := by
  refine (housing_of_reads (within_select (Q := fun _ => True) fun _ _ => trivial)).bind
    fun existing _ => ?_
  split
  · exact housing_of_reads (.ret trivial)
  refine Housing.bind (Q := fun id => purposeOf id = .brand) ?_ fun id hid => ?_
  · intro ws hws u hu
    have hu : purposeOf u = .brand := hu
    refine ensures_bind.mpr (ensures_bind.mpr (ensures_insertRows (fun x hx => ?_) ?_))
    · obtain rfl := List.mem_singleton.mp hx
      exact hu
    · refine ⟨hu, hws.append fun b hb hkind => ?_⟩
      -- a brand needs none
      have hb : b = ⟨u, owner, name, .brand⟩ := by simpa using hb
      rw [hb] at hkind
      cases hkind
  refine (housing_setCuisines id cuisines).bind fun _ _ => ?_
  refine (housing_insertBranch hid).bind fun first _ => ?_
  exact (housing_setCuisines first cuisines).bind fun _ _ => housing_of_reads (.ret trivial)

/-- **Every mutation inserts each branch with its metadata.** -/
theorem body_housing (purposeOf : ℕ → Purpose) (zone : String) (call : Call) :
    Housing purposeOf (call.body zone) fun _ => True := by
  cases hcall : call.identity with
  | false =>
    obtain ⟨r, -, hplain⟩ := body_plain purposeOf zone hcall
    exact (hplain.mono fun _ _ => trivial).housing fun _ hw => hw.own.2
  | true =>
    cases call with
    | createRestaurant owner name place cuisines timezone label =>
      exact housing_createRestaurant zone owner name place cuisines timezone label
    | updateRestaurant id c cuisines =>
      refine ((announces_updateRestaurant id c cuisines).mono fun _ _ => trivial).housing ?_
      rintro w (hown | _)
      · exact hown.2
      · exact not_false
    | createBranch brandId label place timezone =>
      exact housing_createBranch zone brandId label place timezone
    | _ => cases hcall

/-- Touches and events keep the constraints. -/
theorem valid_quiet (h : db.Valid) (hws : ∀ w ∈ ws, w.Quiet) : (applyWrites ws db).Valid := by
  have hmem : ∀ row : Row, (∀ e, row ≠ .outbox e) → (row ∈ applyWrites ws db ↔ row ∈ db) :=
    fun row hrow => mem_applyWrites fun w hw db => (hws w hw).mem hrow
  have hdata : ∀ row : Row, row.references ≠ [] ∨ row.unique ≠ none → ∀ e, row ≠ .outbox e := by
    rintro row hrow e rfl
    rcases hrow with hrow | hrow <;> exact hrow rfl
  constructor
  · intro row hrow k hk
    have hne := hdata row (.inl fun hnil => by rw [hnil] at hk; cases hk)
    have hfind := h.foreign row ((hmem row hne).mp hrow) k hk
    obtain ⟨x, hx⟩ := Option.ne_none_iff_exists'.mp hfind
    obtain ⟨hxmem, rfl⟩ := Table.find_eq_some.mp hx
    -- no event is referred to
    have hxne : ∀ e, x ≠ .outbox e := by
      rintro e rfl
      cases row <;> simp [Row.references, Row.key] at hk
    exact Option.ne_none_iff_exists'.mpr
      ⟨x, Table.find_eq_some.mpr ⟨(hmem x hxne).mpr hxmem, rfl⟩⟩
  · intro row hrow row' hrow' hne heq
    have hn := hdata row (.inr hne)
    have hn' := hdata row' (.inr (heq ▸ hne))
    exact h.unique row ((hmem row hn).mp hrow) row' ((hmem row' hn').mp hrow') hne heq

end

theorem regular_empty : Regular purposeOf .empty where
  typed _ h := absurd h Table.not_mem_empty
  valid := ⟨fun _ h => absurd h List.not_mem_nil, fun _ h => absurd h List.not_mem_nil⟩
  housed _ h := absurd h Table.not_mem_empty

section

variable (h : Commits zone purposeOf db call target edits staged affected)

include h

theorem Commits.edits_typed (hdb : db.Typed purposeOf) : ∀ w ∈ edits, w.Typed purposeOf :=
  (body_local zone call).writes (fun _ _ hw hI => hw.apply hI) hdb h.body

theorem Commits.tells (hdb : db.Typed purposeOf) :
    ∀ w ∈ staged, w.Tells purposeOf target.restaurant :=
  (((within_fanOut target.restaurant target.event) [] (List.forall_mem_nil _)).outcome
    (fun _ _ hw hI => hw.1.apply hI) (typed_applyWrites (h.edits_typed hdb) hdb) h.publishes).2

/-- The writes of a mutation that founds no restaurant. -/
theorem Commits.edits_of (hdb : db.Typed purposeOf) {L : Write → Prop}
    (hL : Announces purposeOf L true r (call.body zone)) :
    target.restaurant = r ∧ ∀ w ∈ edits, L w := by
  obtain ⟨ht, hedits⟩ := (hL [] (List.forall_mem_nil _)).outcome
    (fun _ _ hw hI => hw.1.apply hI) hdb h.body
  exact ⟨(ht target rfl).2, hedits⟩

theorem Commits.housed (hdb : Regular purposeOf db) : Housed (applyWrites edits db) := by
  have hhouses := ((body_housing purposeOf zone call) [] fun _ hb => absurd hb List.not_mem_nil).outcome
    (fun _ _ hw hI => hw.apply hI) hdb.typed h.body
  exact hdb.housed.apply (h.edits_typed hdb.typed) hhouses.2

theorem Commits.regular (hdb : Regular purposeOf db) :
    Regular purposeOf (applyWrites (edits ++ staged) db) := by
  have hquiet : ∀ w ∈ staged, w.Quiet := fun w hw => (h.tells hdb.typed w hw).quiet
  have htyped : ∀ w ∈ staged, w.Typed purposeOf := fun w hw => (hquiet w hw).typed
  rw [applyWrites_append]
  refine ⟨?_, valid_quiet h.valid hquiet, ?_⟩
  · exact typed_applyWrites htyped (typed_applyWrites (h.edits_typed hdb.typed) hdb.typed)
  · exact (h.housed hdb).apply htyped
      (houses_of_not_founds fun w hw => (hquiet w hw).not_founds)

end

theorem Regular.invoke {i : Invocation} (hdb : Regular purposeOf db)
    (h : invoke zone purposeOf db i = some db') : Regular purposeOf db' := by
  obtain ⟨⟨ans, ws⟩, hcall, rfl⟩ := Option.map_eq_some_iff.mp h
  rcases call_cases hcall with rfl | ⟨target, edits, staged, affected, -, rfl, hc⟩
  · exact hdb
  · exact hc.regular hdb

theorem regular_of_run {ok : Db → Invocation → Prop} {is : List Invocation}
    (h : Run (invoke zone purposeOf) ok .empty is db) : Regular purposeOf db :=
  h.invariant regular_empty fun _ _ _ hI _ hs => hI.invoke hs

end Catalog
