/-
What a publication that runs alone stages.

* `outcome_read`, `outcome_menuSnapshot` — statement by statement, the reads are those of
  one snapshot;
* `Staged` — quiet writes that put some events into the outbox, and nothing else;
* `Published`, `outcome_publish` — one event for each restaurant of the fan-out, with its
  profile and menu;
* `unaffected` — the documents of all others are as they were before the mutation.
-/
import SmartFoodOps.Catalog.Tenancy

open Keyed Program

namespace Catalog

variable {purposeOf : ℕ → Purpose} {db : Db} {r : RestaurantId} {w : Write} {ws ws' : List Write}

/-- Alone on `db`, the program comes to `a` with the writes `ws`. -/
abbrev Alone (purposeOf : ℕ → Purpose) {α : Type} (p : Session α) (db : Db) (a : α)
    (ws : List Write) : Prop := Outcome Write.apply (Drawn purposeOf) p db a ws

section

variable {α β : Type} {p : Session α} {f : α → Session β}

theorem alone_bind {b : β} (h : Alone purposeOf (p >>= f) db b ws) :
    ∃ a w w', Alone purposeOf p db a w ∧ ws = w ++ w' ∧
      Alone purposeOf (f a) (applyWrites w db) b w' :=
  (outcome_bind Write.apply (Drawn purposeOf)).mp h

/-- After a read, the database is the same. -/
theorem alone_after_read {b : β} {R : α → Prop} (h : Alone purposeOf (p >>= f) db b ws)
    (hp : ∀ a w, Alone purposeOf p db a w → R a ∧ w = []) :
    ∃ a, R a ∧ Alone purposeOf (f a) db b ws := by
  obtain ⟨a, w, w', ha, rfl, hb⟩ := alone_bind h
  obtain ⟨hR, rfl⟩ := hp a w ha
  exact ⟨a, hR, hb⟩

theorem alone_select [DecidableEq α] {q : Db → α} (a : α) (w : List Write)
    (h : Alone purposeOf (select q) db a w) : a = q db ∧ w = [] :=
  (outcome_select Write.apply (Drawn purposeOf)).mp h

theorem alone_draw {P : Purpose} {u : ℕ} (h : Alone purposeOf (.draw P .ret) db u ws) :
    Drawn purposeOf P u ∧ ws = [] := by
  obtain ⟨u', hu, rfl, rfl⟩ := h
  exact ⟨hu, rfl⟩

end

/-! ### The reads -/

theorem alone_read {R : Restaurant} (h : Alone purposeOf (read r) db R ws) :
    db.read r = some R ∧ ws = [] := by
  obtain ⟨o, rfl, h⟩ := alone_after_read h alone_select
  unfold Db.read
  cases hrow : db.restaurant r with
  | none =>
    rw [hrow] at h
    exact h.elim
  | some row =>
    rw [hrow] at h
    have h : Alone purposeOf (if row.kind = .branch ∧ db.branchMetadata r = none then
      .fail .restaurantNotFound else _) db R ws := h
    split at h
    · exact h.elim
    · next hmeta =>
      obtain ⟨cuisines, rfl, rfl, rfl⟩ := alone_after_read h alone_select
      exact ⟨if_neg hmeta, rfl⟩

theorem tags_nil : db.tags [] = [] :=
  List.eq_nil_iff_forall_not_mem.mpr fun _ h => List.not_mem_nil (mem_tags.mp h).2

theorem groups_nil : db.groups [] = [] :=
  List.eq_nil_iff_forall_not_mem.mpr fun _ h => List.not_mem_nil (mem_groups.mp h).2

theorem options_nil : db.options [] = [] :=
  List.eq_nil_iff_forall_not_mem.mpr fun _ h => List.not_mem_nil (mem_options.mp h).2

/-- The queries that are left out would have found nothing. -/
theorem alone_getMenuRows {scope : List RestaurantId} (rows : MenuRows) (ws : List Write)
    (h : Alone purposeOf (getMenuRows scope) db rows ws) : rows = db.menuRows scope ∧ ws = [] := by
  obtain ⟨categories, rfl, h⟩ := alone_after_read h alone_select
  obtain ⟨items, rfl, h⟩ := alone_after_read h alone_select
  split at h
  · next hitems =>
    obtain ⟨rfl, rfl⟩ := h
    simp [Db.menuRows, hitems, tags_nil, groups_nil, options_nil]
  obtain ⟨tags, rfl, h⟩ := alone_after_read h alone_select
  obtain ⟨groups, rfl, h⟩ := alone_after_read h alone_select
  split at h
  · next hgroups =>
    obtain ⟨rfl, rfl⟩ := h
    simp [Db.menuRows, hgroups, options_nil]
  obtain ⟨options, rfl, rfl, rfl⟩ := alone_after_read h alone_select
  exact ⟨rfl, rfl⟩

theorem alone_menuSnapshot {R : Restaurant} (menu : Menu) (ws : List Write)
    (h : Alone purposeOf (menuSnapshot R) db menu ws) : menu = db.menu R ∧ ws = [] := by
  have hoverrides : ∀ o w, Alone purposeOf
      (if R.brandId.isSome then getOverrideIds R.id else pure []) db o w →
        o = (if R.brandId.isSome then db.overrides R.id else []) ∧ w = [] := by
    intro o w ho
    split at ho
    · next hbrand =>
      rw [if_pos hbrand]
      exact alone_select o w ho
    · next hbrand =>
      rw [if_neg hbrand]
      exact ho
  obtain ⟨overrides, rfl, h⟩ := alone_after_read h hoverrides
  obtain ⟨rows, rfl, rfl, rfl⟩ := alone_after_read h alone_getMenuRows
  exact ⟨rfl, rfl⟩

/-! ### The events -/

def Write.event : Write → Option OutboxRow
  | insert (.outbox e) => some e
  | _ => none

/-- Quiet writes that add these events to the outbox. -/
structure Staged (db : Db) (ws : List Write) (events : List OutboxRow) : Prop where
  quiet : ∀ w ∈ ws, w.Quiet
  events_eq : ws.filterMap Write.event = events
  outbox : ∀ e, Row.outbox e ∈ applyWrites ws db ↔ e ∈ events ∨ Row.outbox e ∈ db

/-- The event carries its restaurant's profile and menu. -/
def Carries (db : Db) (e : OutboxRow) : Prop :=
  ∃ R, db.read e.aggregateId = some R ∧ e.profile = R.profile ∧ e.menu = db.menu R

theorem Staged.nil : Staged db [] [] := ⟨List.forall_mem_nil _, rfl, fun e => by simp⟩

theorem Staged.append {es es' : List OutboxRow} (h : Staged db ws es)
    (h' : Staged (applyWrites ws db) ws' es') : Staged db (ws ++ ws') (es ++ es') where
  quiet w hw := (List.mem_append.mp hw).elim (h.quiet w) (h'.quiet w)
  events_eq := by rw [List.filterMap_append, h.events_eq, h'.events_eq]
  outbox e := by
    rw [applyWrites, applyAll_append]
    refine (h'.outbox e).trans ?_
    rw [h.outbox e, List.mem_append]
    tauto

theorem mem_touch {row : Row} {k : Key} : row ∈ (Write.update k .touch).apply db ↔ row ∈ db := by
  have hid : ∀ x : Row, x.patch .touch = x := fun x => by cases x <;> rfl
  rw [mem_update]
  constructor
  · rintro (⟨hmem, -⟩ | ⟨x, hmem, -, hx⟩)
    · exact hmem
    · rw [hx, hid]
      exact hmem
  · intro hmem
    by_cases hk : row.key = k
    · exact .inr ⟨row, hmem, hk, (hid row).symm⟩
    · exact .inl ⟨hmem, hk⟩

theorem staged_touch {there : Db → Bool} {k : Key} {b : Bool}
    (h : Alone purposeOf (updateRow there k .touch) db b ws) : Staged db ws [] := by
  have h := (outcome_execute Write.apply (Drawn purposeOf)).mp h
  cases ht : there db with
  | false =>
    rw [ht] at h
    cases h
    exact .nil
  | true =>
    rw [ht] at h
    cases h
    refine ⟨fun w hw => ?_, rfl, fun e => ?_⟩
    · obtain rfl := List.mem_singleton.mp hw
      trivial
    · rw [or_iff_right List.not_mem_nil]
      exact mem_touch

theorem staged_insert {e : OutboxRow} {u : Unit}
    (h : Alone purposeOf (insertRows [.outbox e]) db u ws) : Staged db ws [e] := by
  have h := (outcome_execute Write.apply (Drawn purposeOf)).mp h
  split at h
  · next hfresh =>
    cases h
    refine ⟨fun w hw => ?_, rfl, fun e' => ?_⟩
    · obtain rfl := List.mem_singleton.mp hw
      trivial
    · have hnone : db.find (.outbox e.id) = none := hfresh.1 _ (List.mem_singleton_self _)
      refine mem_insert.trans ?_
      rw [List.mem_singleton, Row.outbox.injEq]
      refine or_congr_right (and_iff_left_of_imp fun hmem hk => ?_)
      exact Table.find_eq_none.mp hnone _ hmem hk
  · cases h

/-- **One event with the profile and the menu.** -/
theorem alone_stageOne {R : Restaurant} {event : EventType} {now : Time} {u : Unit}
    (h : Alone purposeOf (stageOne R event now) db u ws) : ∃ e : OutboxRow, Staged db ws [e] ∧
      e.aggregateId = R.id ∧ e.profile = R.profile ∧ e.menu = db.menu R := by
  obtain ⟨menu, rfl, h⟩ := alone_after_read h alone_menuSnapshot
  obtain ⟨_, w, w', htouch, rfl, hrest⟩ := alone_bind h
  obtain ⟨id, -, hinsert⟩ := alone_after_read (R := fun _ => True) hrest fun _ _ hid =>
    ⟨trivial, (alone_draw hid).2⟩
  exact ⟨_, (staged_touch htouch).append (staged_insert hinsert), rfl, rfl, rfl⟩

/-- The events of these restaurants. -/
structure Events (db : Db) (ids : List RestaurantId) (ws : List Write) (es : List OutboxRow) :
    Prop where
  staged : Staged db ws es
  carries : ∀ e ∈ es, e.aggregateId ∈ ids ∧ Carries db e
  complete : ∀ id ∈ ids, ∃ e ∈ es, e.aggregateId = id

theorem Events.nil : Events db [] [] [] := ⟨.nil, List.forall_mem_nil _, List.forall_mem_nil _⟩

theorem Carries.quiet {e : OutboxRow} (hdb : db.Typed purposeOf) (hws : ∀ w ∈ ws, w.Quiet)
    (h : Carries (applyWrites ws db) e) : Carries db e := by
  obtain ⟨R, hR, hprofile, hmenu⟩ := h
  obtain ⟨hread, hmenu'⟩ := document_quiet hdb hws e.aggregateId R
  exact ⟨R, hread ▸ hR, hprofile, hmenu' ▸ hmenu⟩

theorem Events.cons {R : Restaurant} {ids : List RestaurantId} {e : OutboxRow}
    {es : List OutboxRow} (hdb : db.Typed purposeOf) (hR : db.read r = some R)
    (he : Staged db ws [e] ∧ e.aggregateId = R.id ∧ e.profile = R.profile ∧ e.menu = db.menu R)
    (hes : Events (applyWrites ws db) ids ws' es) :
    Events db (r :: ids) (ws ++ ws') (e :: es) := by
  obtain ⟨hstaged, hid, hprofile, hmenu⟩ := he
  have hid : e.aggregateId = r := hid.trans (read_typed hdb hR).1
  refine ⟨hstaged.append hes.staged, fun x hx => ?_, fun q hq => ?_⟩
  · rcases List.mem_cons.mp hx with rfl | hx
    · exact ⟨hid ▸ List.mem_cons_self, R, hid ▸ hR, hprofile, hmenu⟩
    · obtain ⟨hmem, hc⟩ := hes.carries x hx
      exact ⟨List.mem_cons_of_mem r hmem, hc.quiet hdb hstaged.quiet⟩
  · rcases List.mem_cons.mp hq with rfl | hq
    · exact ⟨e, List.mem_cons_self, hid⟩
    · obtain ⟨x, hx, hxq⟩ := hes.complete q hq
      exact ⟨x, List.mem_cons_of_mem e hx, hxq⟩

theorem Staged.typed {es : List OutboxRow} (h : Staged db ws es) (hdb : db.Typed purposeOf) :
    (applyWrites ws db).Typed purposeOf :=
  typed_applyWrites (fun w hw => (h.quiet w hw).typed) hdb

theorem alone_stageBranches {event : EventType} {now : Time} {ids : List RestaurantId} {u : Unit}
    (hdb : db.Typed purposeOf) (h : Alone purposeOf (stageBranches event now ids) db u ws) :
    ∃ es, Events db ids ws es := by
  induction ids generalizing db ws with
  | nil =>
    obtain ⟨-, rfl⟩ := h
    exact ⟨[], .nil⟩
  | cons id rest ih =>
    obtain ⟨R, hR, h⟩ := alone_after_read h fun _ _ => alone_read
    obtain ⟨_, w, w', hone, rfl, hrest⟩ := alone_bind h
    obtain ⟨e, he⟩ := alone_stageOne hone
    obtain ⟨es, hes⟩ := ih (he.1.typed hdb) hrest
    exact ⟨e :: es, .cons hdb hR he hes⟩

/-! ### The fan-out -/

/-- The restaurants that a publication is about. -/
def fanOut (db : Db) (R : Restaurant) : List RestaurantId :=
  if R.kind = .brand then R.id :: (db.branches R.id).map (·.restaurantId) else [R.id]

theorem self_mem_fanOut {R : Restaurant} : R.id ∈ fanOut db R := by
  unfold fanOut
  split <;> exact List.mem_cons_self

theorem branches_congr {db' : Db} {brand : RestaurantId}
    (h : ∀ row : Row, (∀ e, row ≠ .outbox e) → (row ∈ db ↔ row ∈ db')) :
    db.branches brand = db'.branches brand := by
  have hrow : ∀ q, db.restaurant q = db'.restaurant q := by
    refine fun q => congrArg (·.bind Row.asRestaurant) (Table.find_congr fun row hk => h row ?_)
    rintro e rfl
    cases hk
  unfold Db.branches
  simp only [hrow]
  refine congrArg (List.filter _) (Table.select_congr (tells_branches _) fun row m hm => h row ?_)
  rintro e rfl
  cases hm

/-- **A publication stages one event for each restaurant of its fan-out.** -/
theorem alone_publish {event : EventType} {affected : List RestaurantId}
    (hdb : db.Typed purposeOf) (h : Alone purposeOf (publish r event) db affected ws) :
    ∃ R es, db.read r = some R ∧ affected = fanOut db R ∧ Events db affected ws es := by
  obtain ⟨R, hR, h⟩ := alone_after_read h fun _ _ => alone_read
  obtain ⟨now, -, h⟩ := alone_after_read (R := fun _ => True) h fun _ _ hnow =>
    ⟨trivial, (alone_draw hnow).2⟩
  obtain ⟨_, w, w', hone, rfl, hfan⟩ := alone_bind h
  obtain ⟨e, he⟩ := alone_stageOne hone
  obtain ⟨rfl, -⟩ := read_typed hdb hR
  split at hfan
  · next hkind =>
    obtain ⟨rfl, rfl⟩ := hfan
    exact ⟨R, [e], hR, (if_neg hkind).symm, .cons hdb hR he .nil⟩
  · next hkind =>
    obtain ⟨rows, hrows, hfan⟩ := alone_after_read hfan alone_select
    obtain ⟨_, w₁, w₂, hrest, rfl, rfl, rfl⟩ := alone_bind hfan
    obtain ⟨es, hes⟩ := alone_stageBranches (he.1.typed hdb) hrest
    have hbranches : (applyWrites w db).branches R.id = db.branches R.id :=
      branches_congr fun row hrow => mem_applyWrites fun x hx _ => (he.1.quiet x hx).mem hrow
    refine ⟨R, e :: es, hR, ?_, ?_⟩
    · rw [fanOut, if_pos (not_not.mp hkind), hrows, hbranches]
    · rw [List.append_nil]
      exact .cons hdb hR he hes

/-! ### The documents of the others -/

theorem key_persists {k : Key} (hw : w ≠ .delete k) (h : ∃ row ∈ db, row.key = k) :
    ∃ row ∈ w.apply db, row.key = k := by
  obtain ⟨row, hmem, rfl⟩ := h
  by_cases hk : row.key = w.key
  · cases w with
    | insert x => exact ⟨x, mem_insert.mpr (.inl rfl), hk.symm⟩
    | update k p =>
      exact ⟨row.patch p, mem_update.mpr (.inr ⟨row, hmem, hk, rfl⟩), Row.key_patch p row⟩
    | delete k => exact absurd (congrArg Write.delete hk.symm) hw
  · exact ⟨row, (mem_apply_of_ne hk).mpr hmem, rfl⟩

theorem key_persists_applyWrites {k : Key} (hws : ∀ w ∈ ws, w ≠ .delete k)
    (h : ∃ row ∈ db, row.key = k) : ∃ row ∈ applyWrites ws db, row.key = k :=
  applyAll_induction (I := fun db : Db => ∃ row ∈ db, row.key = k)
    (W := fun w : Write => w ≠ .delete k) (fun _ _ hw hdb => key_persists hw hdb) hws h

theorem restaurant_isSome_iff :
    (∃ row, db.restaurant r = some row) ↔ ∃ row ∈ db, row.key = .restaurant r := by
  constructor
  · rintro ⟨row, h⟩
    obtain ⟨hmem, rfl⟩ := restaurant_eq_some.mp h
    exact ⟨_, hmem, rfl⟩
  · rintro ⟨row, hmem, hk⟩
    cases row <;> cases hk
    exact ⟨_, restaurant_eq_some.mpr ⟨hmem, rfl⟩⟩

/-- Restaurants and their metadata stay. -/
theorem branch_stays (hws : ∀ w ∈ ws, w.Typed purposeOf) (hdb : db.Typed purposeOf)
    {o : RestaurantId} {R : Restaurant} (hR : db.read o = some R) (ho : purposeOf o = .branch r) :
    o ∈ ((applyWrites ws db).branches r).map (·.restaurantId) := by
  have hnot : ∀ w ∈ ws, w ≠ .delete (.restaurant o) ∧ w ≠ .delete (.branchMetadata o) := by
    intro w hw
    have ht := hws w hw
    exact ⟨by rintro rfl; exact ht, by rintro rfl; exact ht⟩
  obtain ⟨row, hrow, hmeta, -⟩ := read_eq_some.mp hR
  have hkind : row.kind = .branch := by
    cases hk : row.kind with
    | branch => rfl
    | brand =>
      have hb := (restaurant_typed hdb hrow).1 hk
      rw [ho] at hb
      cases hb
  obtain ⟨m, hm⟩ := Option.ne_none_iff_exists'.mp (hmeta hkind)
  obtain ⟨hmem, hid⟩ := branchMetadata_eq_some.mp hm
  have hthere := restaurant_isSome_iff.mpr (key_persists_applyWrites (fun w hw => (hnot w hw).1)
    (restaurant_isSome_iff.mp ⟨row, hrow⟩))
  obtain ⟨x, hx, hk⟩ := key_persists_applyWrites (fun w hw => (hnot w hw).2)
    ⟨_, hmem, congrArg Key.branchMetadata hid⟩
  cases x <;> cases hk
  next m' =>
    have ht := (typed_applyWrites hws hdb _ hx).1
    rw [ho] at ht
    cases ht
    exact List.mem_map.mpr ⟨m', mem_branches.mpr ⟨hx, rfl, hthere⟩, rfl⟩

/-- **Whoever is not in the fan-out has the document from before the mutation.** -/
theorem unaffected (hdb : db.Typed purposeOf) (htyped : ∀ w ∈ ws, w.Typed purposeOf)
    (hlocal : ∀ w ∈ ws, w.Local purposeOf r) {R : Restaurant}
    (hR : (applyWrites ws db).read r = some R) {o : RestaurantId}
    (ho : o ∉ fanOut (applyWrites ws db) R) (hex : (∃ R', (applyWrites ws db).read o = some R') ∨
      ∃ R', db.read o = some R') :
    (applyWrites ws db).read o = db.read o ∧
      ∀ R', db.read o = some R' → (applyWrites ws db).menu R' = db.menu R' := by
  have htyped' := typed_applyWrites htyped hdb
  obtain ⟨rfl, hRt⟩ := read_typed htyped' hR
  refine document_elsewhere hdb htyped hlocal ?_ fun hbranch => ?_
  · rintro rfl
    exact ho self_mem_fanOut
  -- a branch of the restaurant: then this is its brand, and the fan-out has the branch
  have hmem : o ∈ ((applyWrites ws db).branches R.id).map (·.restaurantId) := by
    rcases hex with ⟨R', hR'⟩ | ⟨R', hR'⟩
    · exact branch_stays (List.forall_mem_nil _) htyped' hR' hbranch
    · exact branch_stays htyped hdb hR' hbranch
  obtain ⟨m, hm, rfl⟩ := List.mem_map.mp hmem
  obtain ⟨hmem', hb, -⟩ := mem_branches.mp hm
  have hbrand : purposeOf R.id = .brand := hb ▸ (htyped' _ hmem').2
  have hkind : R.kind = .brand := by
    cases hk : R.kind with
    | brand => rfl
    | branch =>
      obtain ⟨b, -, hp, -⟩ := hRt.branch hk
      rw [hbrand] at hp
      cases hp
  rw [fanOut, if_pos hkind] at ho
  exact ho (List.mem_cons_of_mem _ hmem)

end Catalog
