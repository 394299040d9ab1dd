/-
What concurrent creations write.

* `Write.Mints` — what a creation writes; `SameAt` — what happens to the row of a key;
* `Opened` — what holds of a transaction in progress, and `Opened.beside` — the commits of
  others keep it;
* `Grows` — what other creations do to the committed restaurants;
* `Winner` — the committed row that a call would duplicate;
* `Racing`, `racing_body` — a statement of a creation that a constraint refuses has met the
  winner, and a creation that goes through has inserted one metadata row.
-/
import SmartFoodOps.Catalog.Race
import SmartFoodOps.Catalog.Frame

open Keyed Program Machine

namespace Catalog

variable {zone : String} {purposeOf : ℕ → Purpose} {db db' db'' : Db} {w : Write}
  {ws ws' A B : List Write} {row : Row} {k : Key}

/-! ### What a creation writes -/

/-- An insert, a touch, or the delete of a cuisine. -/
def Write.Mints : Write → Prop
  | insert _ | update _ .touch | delete (.restaurantCuisine _ _) => True
  | _ => False

/-- The row of a restaurant, or its metadata. -/
def Row.Founding : Row → Prop
  | restaurant _ | branchMetadata _ => True
  | _ => False

/-- The key of a cuisine, which nothing refers to. -/
def Key.Cuisine : Key → Prop
  | restaurantCuisine _ _ => True
  | _ => False

theorem Write.Quiet.mints (h : w.Quiet) : w.Mints := by
  unfold Write.Quiet at h
  split at h
  · trivial
  · trivial
  · exact h.elim

theorem Write.Mints.ne_delete (h : w.Mints) (hk : ¬ k.Cuisine) : w ≠ .delete k := by
  rintro rfl
  cases k <;> first | exact hk trivial | exact h

theorem not_cuisine_of_reference (h : k ∈ row.references) : ¬ k.Cuisine := by
  cases row <;> simp only [Row.references, List.mem_cons, List.not_mem_nil, or_false] at h <;>
    first
    | exact h.elim
    | (subst h; exact id)
    | (rcases h with rfl | rfl <;> exact id)

/-- A row was there, or it has been inserted. -/
theorem mints_back (hw : w.Mints) (h : row ∈ w.apply db) : row ∈ db ∨ w = .insert row := by
  cases w with
  | insert x =>
    rcases mem_insert.mp h with rfl | ⟨hmem, -⟩
    · exact .inr rfl
    · exact .inl hmem
  | update k p =>
    cases p with
    | touch =>
      rcases mem_update.mp h with ⟨hmem, -⟩ | ⟨x, hx, -, rfl⟩
      · exact .inl hmem
      · exact .inl hx
    | _ => exact hw.elim
  | delete k => exact .inl (mem_delete.mp h).1

theorem mints_back_all (hws : ∀ w ∈ ws, w.Mints) (h : row ∈ applyWrites ws db) :
    row ∈ db ∨ .insert row ∈ ws := by
  induction ws generalizing db with
  | nil => exact .inl h
  | cons w ws ih =>
    obtain ⟨hw, hrest⟩ := List.forall_mem_cons.mp hws
    rcases ih hrest h with hmem | hmem
    · rcases mints_back hw hmem with hmem | rfl
      · exact .inl hmem
      · exact .inr List.mem_cons_self
    · exact .inr (List.mem_cons_of_mem w hmem)

theorem mints_key_stays (hws : ∀ w ∈ ws, w.Mints) (hk : ¬ k.Cuisine) (h : ∃ x ∈ db, x.key = k) :
    ∃ x ∈ applyWrites ws db, x.key = k :=
  key_persists_applyWrites (fun w hw => (hws w hw).ne_delete hk) h

/-- An inserted key stays. -/
theorem mints_key_inserted (hws : ∀ w ∈ ws, w.Mints) (hk : ¬ row.key.Cuisine)
    (h : .insert row ∈ ws) : ∃ x ∈ applyWrites ws db, x.key = row.key := by
  obtain ⟨ws₁, ws₂, rfl⟩ := List.append_of_mem h
  rw [applyWrites_append, applyWrites_cons]
  refine mints_key_stays (fun w hw => hws w ?_) hk ⟨row, mem_insert.mpr (.inl rfl), rfl⟩
  exact List.mem_append_right _ (List.mem_cons_of_mem _ hw)

/-! ### The row of a key -/

/-- The databases have the same row under the key. -/
def SameAt (k : Key) (db db' : Db) : Prop := ∀ x : Row, x.key = k → (x ∈ db ↔ x ∈ db')

theorem SameAt.apply (h : SameAt k db db') (w : Write) : SameAt k (w.apply db) (w.apply db') := by
  intro x hx
  cases w with
  | insert y =>
    rw [mem_insert, mem_insert]
    exact or_congr_right (and_congr_left fun _ => h x hx)
  | update l p =>
    rw [mem_update, mem_update]
    refine or_congr (and_congr_left fun _ => h x hx) (exists_congr fun y => ?_)
    constructor
    · rintro ⟨hy, hl, rfl⟩
      rw [Row.key_patch] at hx
      exact ⟨(h y hx).mp hy, hl, rfl⟩
    · rintro ⟨hy, hl, rfl⟩
      rw [Row.key_patch] at hx
      exact ⟨(h y hx).mpr hy, hl, rfl⟩
  | delete l =>
    rw [mem_delete, mem_delete]
    exact and_congr_left fun _ => h x hx

theorem SameAt.applyWrites (h : SameAt k db db') (ws : List Write) :
    SameAt k (applyWrites ws db) (applyWrites ws db') := by
  induction ws generalizing db db' with
  | nil => exact h
  | cons w ws ih => exact ih (h.apply w)

theorem sameAt_of_ne (h : ∀ w ∈ ws, w.key ≠ k) : SameAt k (applyWrites ws db) db := by
  intro x hx
  refine mem_applyWrites fun w hw db => mem_apply_of_ne ?_
  rw [hx]
  exact (h w hw).symm

/-! ### The constraints -/

theorem accepted_valid (hw : w.Mints) (h : db.Valid) (ha : w.Accepted db) : (w.apply db).Valid := by
  cases w with
  | insert row =>
    obtain ⟨hrefs, hunique⟩ := ha
    have hthere : ∀ k, ¬ k.Cuisine → db.find k ≠ none → ((Write.insert row).apply db).find k ≠ none := by
      intro k hk hfind hnone
      obtain ⟨x, hx⟩ := Option.ne_none_iff_exists'.mp hfind
      obtain ⟨y, hy, hyk⟩ := key_persists (Write.Mints.ne_delete (w := .insert row) trivial hk)
        ⟨x, Table.find_eq_some.mp hx⟩
      exact Table.find_eq_none.mp hnone y hy hyk
    constructor
    · intro x hx k hk
      rcases mem_insert.mp hx with rfl | ⟨hmem, -⟩
      · exact hrefs k hk
      · exact hthere k (not_cuisine_of_reference hk) (h.foreign x hmem k hk)
    · intro x hx y hy hne he
      rcases mem_insert.mp hx with rfl | ⟨hxmem, -⟩ <;> rcases mem_insert.mp hy with rfl | ⟨hymem, -⟩
      · rfl
      · exact absurd he (hunique y hymem hne)
      · exact absurd he.symm (hunique x hxmem (he ▸ hne))
      · exact h.unique x hxmem y hymem hne he
  | update k p =>
    cases p with
    | touch =>
      have hquiet : ∀ w ∈ [Write.update k .touch], w.Quiet := by
        intro w hw
        rw [List.mem_singleton.mp hw]
        trivial
      exact valid_quiet h hquiet
    | _ => exact hw.elim
  | delete k =>
    constructor
    · intro x hx l hl
      obtain ⟨hmem, -⟩ := mem_delete.mp hx
      obtain ⟨y, hy⟩ := Option.ne_none_iff_exists'.mp (h.foreign x hmem l hl)
      obtain ⟨hymem, rfl⟩ := Table.find_eq_some.mp hy
      have hne : y.key ≠ k := by
        rintro rfl
        exact ha x hmem hl
      exact fun hnone => Table.find_eq_none.mp hnone y (mem_delete.mpr ⟨hymem, hne⟩) rfl
    · intro x hx y hy hne he
      exact h.unique x (mem_delete.mp hx).1 y (mem_delete.mp hy).1 hne he

theorem accepts_valid (hws : ∀ w ∈ ws, w.Mints) (h : db.Valid) (ha : Accepts ws db) :
    (applyWrites ws db).Valid := by
  induction ws generalizing db with
  | nil => exact h
  | cons w ws ih =>
    obtain ⟨hw, hrest⟩ := List.forall_mem_cons.mp hws
    exact ih hrest (accepted_valid hw h ha.1) ha.2

/-- Two transactions in progress that do not clash: after one has committed, the other still
meets the constraints. -/
theorem valid_beside (hA : ∀ w ∈ A, w.Mints) (hB : ∀ w ∈ B, w.Mints)
    (hclash : ∀ w ∈ A, ∀ w' ∈ B, ¬ Clash w w') (hvA : (applyWrites A db).Valid)
    (hvB : (applyWrites B db).Valid) : (applyWrites A (applyWrites B db)).Valid := by
  have hkeys : ∀ k, (∀ w ∈ B, w.key ≠ k) ∨ ∀ w ∈ A, w.key ≠ k := by
    intro k
    by_contra hnot
    obtain ⟨hnB, hnA⟩ := not_or.mp hnot
    push Not at hnB hnA
    obtain ⟨w', hw', rfl⟩ := hnB
    obtain ⟨w, hw, hk⟩ := hnA
    exact hclash w hw w' hw' (.inl hk)
  have hleft : ∀ k, (∀ w ∈ B, w.key ≠ k) → SameAt k (applyWrites A (applyWrites B db))
      (applyWrites A db) := fun k h => (sameAt_of_ne h).applyWrites A
  have hright : ∀ k, (∀ w ∈ A, w.key ≠ k) → SameAt k (applyWrites A (applyWrites B db))
      (applyWrites B db) := fun k h => sameAt_of_ne h
  -- a key of either stays
  have hthere : ∀ k, ¬ k.Cuisine → (∃ x ∈ applyWrites A db, x.key = k) ∨
      (∃ x ∈ applyWrites B db, x.key = k) →
        ∃ x ∈ applyWrites A (applyWrites B db), x.key = k := by
    rintro k hk (⟨x, hx, rfl⟩ | hx)
    · rcases mints_back_all hA hx with hmem | hins
      · exact mints_key_stays hA hk (mints_key_stays hB hk ⟨x, hmem, rfl⟩)
      · exact mints_key_inserted hA hk hins
    · exact mints_key_stays hA hk hx
  constructor
  · intro row hrow k hk hnone
    have hfind : (∃ x ∈ applyWrites A db, x.key = k) ∨ ∃ x ∈ applyWrites B db, x.key = k := by
      rcases hkeys row.key with hside | hside
      · obtain ⟨x, hx⟩ := Option.ne_none_iff_exists'.mp
          (hvA.foreign row ((hleft _ hside row rfl).mp hrow) k hk)
        exact .inl ⟨x, Table.find_eq_some.mp hx⟩
      · obtain ⟨x, hx⟩ := Option.ne_none_iff_exists'.mp
          (hvB.foreign row ((hright _ hside row rfl).mp hrow) k hk)
        exact .inr ⟨x, Table.find_eq_some.mp hx⟩
    obtain ⟨x, hx, hxk⟩ := hthere k (not_cuisine_of_reference hk) hfind
    exact Table.find_eq_none.mp hnone x hx hxk
  · have hmixed : ∀ row row', row ∈ applyWrites A (applyWrites B db) →
        row' ∈ applyWrites A (applyWrites B db) → (∀ w ∈ B, w.key ≠ row.key) →
          (∀ w ∈ A, w.key ≠ row'.key) → row.unique ≠ none → row.unique = row'.unique →
            row = row' := by
      intro row row' hrow hrow' hside hside' hne he
      have hmem := (hleft _ hside row rfl).mp hrow
      have hmem' := (hright _ hside' row' rfl).mp hrow'
      rcases mints_back_all hA hmem with hold | hins
      · exact hvB.unique row ((sameAt_of_ne hside row rfl).mpr hold) row' hmem' hne he
      · rcases mints_back_all hB hmem' with hold' | hins'
        · exact hvA.unique row hmem row' ((sameAt_of_ne hside' row' rfl).mpr hold') hne he
        · exact absurd (.inr ⟨hne, he⟩) (hclash _ hins _ hins')
    intro row hrow row' hrow' hne he
    rcases hkeys row.key with hside | hside <;> rcases hkeys row'.key with hside' | hside'
    · exact hvA.unique row ((hleft _ hside row rfl).mp hrow) row'
        ((hleft _ hside' row' rfl).mp hrow') hne he
    · exact hmixed row row' hrow hrow' hside hside' hne he
    · exact (hmixed row' row hrow' hrow hside' hside (he ▸ hne) he.symm).symm
    · exact hvB.unique row ((hright _ hside row rfl).mp hrow) row'
        ((hright _ hside' row' rfl).mp hrow') hne he

/-! ### Transactions in progress -/

/-- What holds of the writes of a creation, before it commits. -/
structure Opened (purposeOf : ℕ → Purpose) (db : Db) (ws : List Write) : Prop where
  mints : ∀ w ∈ ws, w.Mints
  typed : ∀ w ∈ ws, w.Typed purposeOf
  fresh : ∀ row, .insert row ∈ ws → row.Founding → db.find row.key = none
  valid : (applyWrites ws db).Valid

/-- The committed restaurants and metadata stay. -/
def Grows (db db' : Db) : Prop := ∀ row : Row, row.Founding → row ∈ db → row ∈ db'

theorem Grows.refl (db : Db) : Grows db db := fun _ _ h => h

theorem Grows.trans (h : Grows db db') (h' : Grows db' db'') : Grows db db'' :=
  fun row hrow hmem => h' row hrow (h row hrow hmem)

theorem opened_nil (h : db.Valid) : Opened purposeOf db [] :=
  ⟨List.forall_mem_nil _, List.forall_mem_nil _, fun _ h => absurd h List.not_mem_nil, h⟩

theorem Opened.append (h : Opened purposeOf db ws) (hmints : ∀ w ∈ ws', w.Mints)
    (htyped : ∀ w ∈ ws', w.Typed purposeOf)
    (hfresh : ∀ row, .insert row ∈ ws' → row.Founding → db.find row.key = none)
    (ha : Accepts ws' (applyWrites ws db)) : Opened purposeOf db (ws ++ ws') where
  mints := forall_append h.mints hmints
  typed := forall_append h.typed htyped
  fresh row hrow hf := (List.mem_append.mp hrow).elim (fun hr => h.fresh row hr hf)
    fun hr => hfresh row hr hf
  valid := by
    rw [applyWrites_append]
    exact accepts_valid hmints h.valid ha

/-- The commit of a creation keeps the restaurants that are there. -/
theorem Opened.grows (h : Opened purposeOf db ws) : Grows db (applyWrites ws db) := by
  intro row hf hmem
  have hk : ¬ row.key.Cuisine := by cases row <;> first | exact id | exact fun _ => hf
  obtain ⟨x, hx, hxk⟩ := mints_key_stays h.mints hk ⟨row, hmem, rfl⟩
  rcases mints_back_all h.mints hx with hold | hins
  · rwa [← Table.eq_of_key hold hmem hxk]
  · have hxf : x.Founding := by
      cases x <;> cases row <;> trivial
    exact absurd hxk.symm (Table.find_eq_none.mp (h.fresh x hins hxf) row hmem)

/-- **The commit of another creation keeps what holds of the writes.** -/
theorem Opened.beside (hA : Opened purposeOf db A) (hB : Opened purposeOf db B)
    (hclash : ∀ w ∈ A, ∀ w' ∈ B, ¬ Clash w w') : Opened purposeOf (applyWrites B db) A where
  mints := hA.mints
  typed := hA.typed
  fresh row hrow hf := by
    have hsame : SameAt row.key (applyWrites B db) db :=
      sameAt_of_ne fun w hw hk => hclash _ hrow w hw (.inl hk.symm)
    refine Table.find_eq_none.mpr fun x hx hk => ?_
    exact Table.find_eq_none.mp (hA.fresh row hrow hf) x ((hsame x hk).mp hx) hk
  valid := valid_beside hA.mints hB.mints hclash hA.valid hB.valid

theorem Opened.find_none (h : Opened purposeOf db ws) (hk : ¬ k.Cuisine)
    (hnone : (applyWrites ws db).find k = none) : db.find k = none := by
  refine Table.find_eq_none.mpr fun x hx hxk => ?_
  obtain ⟨y, hy, hyk⟩ := mints_key_stays h.mints hk ⟨x, hx, hxk⟩
  exact Table.find_eq_none.mp hnone y hy hyk

/-! ### What the statements of a creation write -/

/-- The committed row that the call would duplicate. -/
def Winner (db : Db) : Call → Prop
  | .createRestaurant owner _ _ _ _ _ =>
    ∃ x, Row.restaurant x ∈ db ∧ x.kind = .brand ∧ x.ownerUserId = owner
  | .createBranch brandId label _ _ =>
    ∃ m, Row.branchMetadata m ∈ db ∧ m.brandId = brandId ∧ m.branchLabel = label
  | _ => False

theorem mem_of_brandOfOwner {owner : String} {x : RestaurantRow} (h : db.brandOfOwner owner = some x) :
    Row.restaurant x ∈ db ∧ x.kind = .brand ∧ x.ownerUserId = owner := by
  obtain ⟨row, hrow, hx⟩ := List.mem_filterMap.mp (List.mem_of_find?_eq_some h)
  have hp : x.ownerUserId = owner ∧ x.kind = .brand := by simpa using List.find?_some h
  cases row with
  | restaurant y =>
    cases hx
    exact ⟨hrow, hp.2, hp.1⟩
  | _ => cases hx

theorem mem_of_branchByLabel {brandId : RestaurantId} {label : String} {m : BranchMetadata}
    (h : (db.branches brandId).find? (fun m => m.branchLabel = label) = some m) :
    Row.branchMetadata m ∈ db ∧ m.brandId = brandId ∧ m.branchLabel = label := by
  have hp : m.branchLabel = label := by simpa using List.find?_some h
  obtain ⟨hmem, hb, -⟩ := mem_branches.mp (List.mem_of_find?_eq_some h)
  exact ⟨hmem, hb, hp⟩

/-- What a statement of the call may write; when a constraint refuses it, the row that it
would duplicate is there. -/
structure Fair (purposeOf : ℕ → Purpose) (call : Call) (db : Db) (ws w : List Write) : Prop where
  mints : ∀ x ∈ w, x.Mints
  typed : ∀ x ∈ w, x.Typed purposeOf
  fresh : ∀ row, .insert row ∈ w → row.Founding → db.find row.key = none
  winner : ¬ Accepts w (applyWrites ws db) → Winner db call

/-- A program of the call, while other creations commit. -/
abbrev Racing (purposeOf : ℕ → Purpose) (call : Call) {α : Type} (p : Session α)
    (Q : Db → α → List Write → Prop) (db : Db) (ws : List Write) : Prop :=
  Beside (Drawn purposeOf) Write.apply Grows (Regular purposeOf)
    (fun db ws w => Opened purposeOf db ws → Fair purposeOf call db ws w) (fun _ => True) p Q db ws

section

variable {call : Call} {α β : Type} {Q : Db → β → List Write → Prop}

theorem Racing.bind {p : Session α} {f : α → Session β}
    (h : Racing purposeOf call p (fun db a ws => Racing purposeOf call (f a) Q db ws) db ws)
    (hI : Regular purposeOf db) : Racing purposeOf call (p >>= f) Q db ws :=
  beside_bind Grows.refl h hI

theorem racing_draw {P : Purpose} {f : ℕ → Session β}
    (h : ∀ u, Drawn purposeOf P u → Racing purposeOf call (f u) Q db ws) :
    Racing purposeOf call (.draw P .ret >>= f) Q db ws := h

/-- A read, and what has been committed since. -/
theorem growing_select [DecidableEq β] {q : Db → β} {S : Db → List Write → List Write → Prop}
    {E : CatalogError → Prop} (hS : ∀ db, S db ws [])
    (h : ∀ db', Grows db db' → Regular purposeOf db' → ∀ db'', Grows db' db'' →
      Regular purposeOf db'' → Q db'' (q (applyWrites ws db')) ws) :
    Beside (Drawn purposeOf) Write.apply Grows (Regular purposeOf) S E (select q) Q db ws := by
  intro db' hg hI b w hq
  cases hq
  rw [List.append_nil]
  exact ⟨hS db', h db' hg hI⟩

theorem fair_nil (db : Db) : Fair purposeOf call db ws [] :=
  ⟨List.forall_mem_nil _, List.forall_mem_nil _, fun _ hr => absurd hr List.not_mem_nil,
    fun hnot => absurd trivial hnot⟩

theorem racing_select [DecidableEq β] {q : Db → β}
    (h : ∀ db', Grows db db' → Regular purposeOf db' → ∀ db'', Grows db' db'' →
      Regular purposeOf db'' → Q db'' (q (applyWrites ws db')) ws) :
    Racing purposeOf call (select q) Q db ws := growing_select (fun db _ => fair_nil db) h

theorem racing_insertRows {rows : List Row} {Q : Db → Unit → List Write → Prop}
    (htyped : ∀ row ∈ rows, row.Typed purposeOf)
    (hwinner : ∀ db', Grows db db' → Regular purposeOf db' → Opened purposeOf db' ws →
      ¬ Accepts (rows.map .insert) (applyWrites ws db') → Winner db' call)
    (hQ : ∀ db', Grows db db' → Regular purposeOf db' → Q db' () (ws ++ rows.map .insert)) :
    Racing purposeOf call (insertRows rows) Q db ws := by
  intro db' hg hI b w hq
  simp only at hq
  split at hq
  · next hnew =>
    cases hq
    refine ⟨fun hopened => ⟨fun x hx => ?_, fun x hx => ?_, fun row hrow hf => ?_,
      hwinner db' hg hI hopened⟩, fun db'' hg' hI' => hQ db'' (hg.trans hg') hI'⟩
    · obtain ⟨row, -, rfl⟩ := List.mem_map.mp hx
      trivial
    · obtain ⟨row, hrow, rfl⟩ := List.mem_map.mp hx
      exact htyped row hrow
    · have hmem : row ∈ rows := by simpa using hrow
      refine hopened.find_none ?_ (hnew.1 row hmem)
      cases row <;> first | exact id | exact fun _ => hf
  · cases hq

/-- Rows with their references and no unique value. -/
theorem accepts_inserts {rows : List Row}
    (h : ∀ row ∈ rows, row.unique = none ∧ ∀ k ∈ row.references, ∃ x ∈ db, x.key = k) :
    Accepts (rows.map .insert) db := by
  induction rows generalizing db with
  | nil => trivial
  | cons row rows ih =>
    obtain ⟨⟨hunique, hrefs⟩, hrest⟩ := List.forall_mem_cons.mp h
    have hstays : ∀ k, ¬ k.Cuisine → (∃ x ∈ db, x.key = k) →
        ∃ x ∈ (Write.insert row).apply db, x.key = k := fun k hk hx =>
      key_persists (Write.Mints.ne_delete (w := .insert row) trivial hk) hx
    refine ⟨⟨fun k hk hnone => ?_, fun _ _ hne => absurd hunique hne⟩, ih fun x hx => ?_⟩
    · obtain ⟨x, hx, hxk⟩ := hstays k (not_cuisine_of_reference hk) (hrefs k hk)
      exact Table.find_eq_none.mp hnone x hx hxk
    · obtain ⟨hu, hr⟩ := hrest x hx
      exact ⟨hu, fun k hk => hstays k (not_cuisine_of_reference hk) (hr k hk)⟩

/-- Cuisines can always be deleted. -/
theorem accepts_deleteCuisines {id : RestaurantId} {cuisines : List String} :
    Accepts ((cuisines.map (.restaurantCuisine id)).map .delete) db := by
  induction cuisines generalizing db with
  | nil => trivial
  | cons c cuisines ih => exact ⟨fun row _ hk => not_cuisine_of_reference hk trivial, ih⟩

/-- The cuisines of a restaurant that the call has inserted. -/
theorem racing_setCuisines {id : RestaurantId} {cuisines : List String}
    {Q : Db → Unit → List Write → Prop} (hI : Regular purposeOf db)
    (hid : ∃ x, .insert (.restaurant x) ∈ ws ∧ x.id = id)
    (hQ : ∀ db' w, Grows db db' → Regular purposeOf db' → (∀ x ∈ w, x.key.Cuisine) →
      Q db' () (ws ++ w)) : Racing purposeOf call (setCuisines id cuisines) Q db ws := by
  refine Racing.bind ?_ hI
  intro db₁ hg₁ hI₁ b w hq
  cases hq
  have hdeletes : ∀ x ∈ (((applyWrites ws db₁).cuisines id).map (.restaurantCuisine id)).map
      Write.delete, x.Mints ∧ x.key.Cuisine ∧ x.Typed purposeOf := by
    intro x hx
    obtain ⟨k, hk, rfl⟩ := List.mem_map.mp hx
    obtain ⟨c, -, rfl⟩ := List.mem_map.mp hk
    exact ⟨trivial, trivial, trivial⟩
  refine ⟨fun _ => ⟨fun x hx => (hdeletes x hx).1, fun x hx => (hdeletes x hx).2.2,
    fun row hrow _ => ?_, fun hnot => absurd accepts_deleteCuisines hnot⟩, ?_⟩
  · obtain ⟨k, -, hk⟩ := List.mem_map.mp hrow
    cases hk
  intro db₂ hg₂ hI₂
  refine racing_insertRows (fun row hrow => ?_) (fun db₃ _ _ hopened hnot => ?_)
    fun db₃ hg₃ hI₃ => ?_
  · obtain ⟨c, -, rfl⟩ := List.mem_map.mp hrow
    trivial
  · -- the restaurant is there
    refine absurd (accepts_inserts fun row hrow => ?_) hnot
    obtain ⟨c, -, rfl⟩ := List.mem_map.mp hrow
    refine ⟨rfl, fun k hk => ?_⟩
    obtain ⟨x, hx, hxid⟩ := hid
    have hkey : ¬ (Row.restaurant x).key.Cuisine := not_false
    obtain ⟨y, hy, hyk⟩ := mints_key_inserted hopened.mints hkey (List.mem_append_left _ hx)
    refine ⟨y, hy, hyk.trans ?_⟩
    rw [List.mem_singleton.mp hk]
    exact congrArg Key.restaurant hxid
  · rw [List.append_assoc]
    refine hQ db₃ _ ((hg₁.trans hg₂).trans hg₃) hI₃ fun x hx => ?_
    rcases List.mem_append.mp hx with hx | hx
    · exact (hdeletes x hx).2.1
    · obtain ⟨row, hrow, rfl⟩ := List.mem_map.mp hx
      obtain ⟨c, -, rfl⟩ := List.mem_map.mp hrow
      trivial

/-- A new branch of a brand that is there, or that the call has inserted. -/
theorem racing_insertBranch {owner name label : String} {place : Place} {timezone : String}
    {brandId : RestaurantId} {Q : Db → RestaurantId → List Write → Prop}
    (hI : Regular purposeOf db) (hbrand : purposeOf brandId = .brand)
    (hthere : (∃ x, .insert (.restaurant x) ∈ ws ∧ x.id = brandId) ∨
      ∃ x, Row.restaurant x ∈ db ∧ x.id = brandId)
    (hnone : ∀ m, .insert (.branchMetadata m) ∉ ws)
    (hwinner : ∀ db', Grows db db' → Regular purposeOf db' →
      (∀ row, .insert row ∈ ws → row.Founding → db'.find row.key = none) →
        (∃ m, Row.branchMetadata m ∈ db' ∧ m.brandId = brandId ∧ m.branchLabel = label) →
          Winner db' call)
    (hQ : ∀ db' b m, Grows db db' → Regular purposeOf db' → m.restaurantId = b.id →
      m.brandId = brandId → b.kind = .branch →
        Q db' b.id (ws ++ [.insert (.restaurant b), .insert (.branchMetadata m)])) :
    Racing purposeOf call (insertRestaurant owner name place timezone (.branch brandId label)) Q
      db ws := by
  refine racing_draw fun u hu => ?_
  have hu : purposeOf u = .branch brandId := hu
  refine Racing.bind (racing_insertRows ?_ ?_ fun db₁ hg₁ hI₁ => ?_) hI
  · intro row hrow
    obtain rfl := List.mem_singleton.mp hrow
    exact ⟨brandId, hu, hbrand⟩
  · intro db' _ _ _ hnot
    refine absurd (accepts_inserts fun row hrow => ?_) hnot
    obtain rfl := List.mem_singleton.mp hrow
    exact ⟨rfl, fun k hk => absurd hk List.not_mem_nil⟩
  refine Racing.bind (racing_insertRows ?_ ?_ fun db₂ hg₂ hI₂ => ?_) hI₁
  · intro row hrow
    obtain rfl := List.mem_singleton.mp hrow
    exact ⟨hu, hbrand⟩
  · -- the restaurants that it names are there, so another row has the label
    intro db' hg hI' hopened hnot
    by_contra hno
    refine hnot ⟨⟨fun k hk hfind => ?_, fun row hrow hne he => ?_⟩, trivial⟩
    · have hkey : ∃ x ∈ applyWrites (ws ++ [.insert (.restaurant ⟨u, owner, name, .branch⟩)]) db',
          x.key = k := by
        rcases List.mem_cons.mp hk with rfl | hk
        · have hself : ¬ (Row.restaurant ⟨u, owner, name, .branch⟩).key.Cuisine := not_false
          exact mints_key_inserted hopened.mints hself (List.mem_append_right _ List.mem_cons_self)
        · rw [List.mem_singleton.mp hk]
          rcases hthere with ⟨x, hx, hid⟩ | ⟨x, hx, hid⟩
          · have hself : ¬ (Row.restaurant x).key.Cuisine := not_false
            obtain ⟨y, hy, hyk⟩ :=
              mints_key_inserted hopened.mints hself (List.mem_append_left _ hx)
            exact ⟨y, hy, hyk.trans (congrArg Key.restaurant hid)⟩
          · have hx' : Row.restaurant x ∈ db' :=
              hg (.restaurant x) trivial (hg₁ (.restaurant x) trivial hx)
            exact mints_key_stays hopened.mints not_false ⟨_, hx', congrArg Key.restaurant hid⟩
      obtain ⟨x, hx, hxk⟩ :=
        key_persists (Write.Mints.ne_delete (w := .insert _) trivial (not_cuisine_of_reference hk)) hkey
      exact Table.find_eq_none.mp hfind x hx hxk
    · cases row with
      | branchMetadata m' =>
        obtain ⟨hb, hl⟩ := Prod.mk.inj (Sum.inr.inj (Option.some.inj he))
        refine hno (hwinner db' (hg₁.trans hg) hI' (fun row hrow hf => ?_) ⟨m', ?_, hb.symm, hl.symm⟩)
        · exact hopened.fresh row (List.mem_append_left _ hrow) hf
        · rcases mints_back_all hopened.mints hrow with hold | hins
          · exact hold
          · rcases List.mem_append.mp hins with hins | hins
            · exact absurd hins (hnone m')
            · cases List.mem_singleton.mp hins
      | restaurant x =>
        simp only [Row.unique] at he
        split at he <;> cases he
      | _ => cases he
  · have hlist : ws ++ [.insert (.restaurant ⟨u, owner, name, .branch⟩)] ++
        [.insert (.branchMetadata ⟨u, brandId, label, place.city, place.lat, place.lon, .opened,
          place.hours, timezone⟩)] = ws ++ [.insert (.restaurant ⟨u, owner, name, .branch⟩),
            .insert (.branchMetadata ⟨u, brandId, label, place.city, place.lat, place.lon, .opened,
              place.hours, timezone⟩)] := by simp
    intro db₃ hg₃ hI₃
    have hg := (hg₁.trans hg₂).trans hg₃
    have hq := hQ db₃ ⟨u, owner, name, .branch⟩ ⟨u, brandId, label, place.city, place.lat, place.lon,
      .opened, place.hours, timezone⟩ hg hI₃ rfl rfl rfl
    rw [← hlist] at hq
    exact hq

/-- The brand of the caller. -/
theorem racing_insertBrand {owner name name' : String} {place place' : Place} {timezone : String}
    {cuisines : List String} {timezone' label : Option String}
    {Q : Db → RestaurantId → List Write → Prop} (hI : Regular purposeOf db)
    (hQ : ∀ db' b, Grows db db' → Regular purposeOf db' → purposeOf b.id = .brand →
      b.kind = .brand → Q db' b.id [.insert (.restaurant b)]) :
    Racing purposeOf (.createRestaurant owner name' place' cuisines timezone' label)
      (insertRestaurant owner name place timezone .brand) Q db [] := by
  refine racing_draw fun u hu => ?_
  have hu : purposeOf u = .brand := hu
  refine Racing.bind (racing_insertRows ?_ ?_ fun db₁ hg₁ hI₁ => ?_) hI
  · intro row hrow
    obtain rfl := List.mem_singleton.mp hrow
    exact hu
  · -- another brand has the owner
    intro db' _ _ _ hnot
    by_contra hno
    refine hnot ⟨⟨fun k hk => absurd hk List.not_mem_nil, fun row hrow _ he => ?_⟩, trivial⟩
    cases row with
    | restaurant x =>
      simp only [Row.unique, if_true] at he
      split at he
      · next hkind => exact hno ⟨x, hrow, hkind, (Sum.inl.inj (Option.some.inj he)).symm⟩
      · cases he
    | _ => cases he
  · intro db₂ hg₂ hI₂
    exact hQ db₂ ⟨u, owner, name, .brand⟩ (hg₁.trans hg₂) hI₂ hu rfl

/-- The metadata that a creation inserts: one row, of a branch that it inserts too. -/
def Minted (call : Call) (ws : List Write) : Prop :=
  Houses ws ∧ ∃ m, .insert (.branchMetadata m) ∈ ws ∧
    (∀ m', .insert (.branchMetadata m') ∈ ws → m' = m) ∧
      match call with
      | .createBranch brandId _ _ _ => m.brandId = brandId
      | _ => ∃ x, .insert (.restaurant x) ∈ ws ∧ x.id = m.brandId

theorem minted_of {pre w : List Write} {b : RestaurantRow} {m : BranchMetadata}
    (hpre : ∀ m, .insert (.branchMetadata m) ∉ pre)
    (hbrands : ∀ x, .insert (.restaurant x) ∈ pre → x.kind = .brand)
    (hw : ∀ x ∈ w, x.key.Cuisine) (hm : m.restaurantId = b.id)
    (hbrand : match call with
      | .createBranch brandId _ _ _ => m.brandId = brandId
      | _ => ∃ x, .insert (.restaurant x) ∈ pre ∧ x.id = m.brandId) :
    Minted call (pre ++ [.insert (.restaurant b), .insert (.branchMetadata m)] ++ w) := by
  have hmem : .insert (.branchMetadata m) ∈
      pre ++ [.insert (.restaurant b), .insert (.branchMetadata m)] ++ w := by simp
  refine ⟨fun x hx hkind => ?_, m, hmem, fun m' hm' => ?_, ?_⟩
  · rcases List.mem_append.mp hx with hx | hx
    · rcases List.mem_append.mp hx with hx | hx
      · rw [hbrands x hx] at hkind
        cases hkind
      · obtain rfl : x = b := by simpa using hx
        exact ⟨m, hmem, hm⟩
    · exact (hw _ hx).elim
  · rcases List.mem_append.mp hm' with hm' | hm'
    · rcases List.mem_append.mp hm' with hm' | hm'
      · exact absurd hm' (hpre m')
      · simpa using hm'
    · exact (hw _ hm').elim
  · cases call with
    | createBranch => exact hbrand
    | _ =>
      obtain ⟨x, hx, hid⟩ := hbrand
      exact ⟨x, List.mem_append_left _ (List.mem_append_left _ hx), hid⟩

/-- How the body of a creation ends: it has found the row, or it has inserted new ones. -/
def Ended (call : Call) (db : Db) (target : Option Target) (ws : List Write) : Prop :=
  match target with
  | none => Winner db call
  | some _ => Minted call ws

theorem racing_createRestaurant {owner name : String} {place : Place} {cuisines : List String}
    {timezone label : Option String} (hI : Regular purposeOf db) :
    Racing purposeOf (.createRestaurant owner name place cuisines timezone label)
      (createRestaurant zone owner name place cuisines timezone label)
      (Ended (.createRestaurant owner name place cuisines timezone label)) db [] := by
  refine Racing.bind (racing_select fun db₁ _ hI₁ db₂ hg₂ hI₂ => ?_) hI
  split
  · next x hx =>
    intro db₃ hg₃ _
    obtain ⟨hmem, hx'⟩ := mem_of_brandOfOwner hx
    exact ⟨x, (hg₂.trans hg₃) (.restaurant x) trivial hmem, hx'⟩
  refine Racing.bind (racing_insertBrand hI₂ fun db₃ b hg₃ hI₃ hp hkind => ?_) hI₂
  refine Racing.bind (racing_setCuisines hI₃ ⟨b, List.mem_singleton_self _, rfl⟩
    fun db₄ w hg₄ hI₄ hw => ?_) hI₃
  refine Racing.bind (racing_insertBranch hI₄ hp ?_ ?_ ?_ fun db₅ first m hg₅ hI₅ hm hb hfirst => ?_) hI₄
  · exact .inl ⟨b, List.mem_cons_self, rfl⟩
  · intro m hm
    rcases List.mem_cons.mp hm with hm | hm
    · cases hm
    · exact (hw _ hm).elim
  · -- a new brand has no branches
    rintro db' _ hI' hfresh ⟨m, hm, hb, -⟩
    obtain ⟨x, hx, hxk⟩ := reference_there hI' hm
      (List.mem_cons_of_mem _ (List.mem_singleton_self _))
    have hnone := hfresh (.restaurant b) List.mem_cons_self trivial
    exact absurd (hxk.trans (congrArg Key.restaurant hb)) (Table.find_eq_none.mp hnone x hx)
  refine Racing.bind (racing_setCuisines hI₅ ⟨first, by simp, rfl⟩ fun db₆ w' hg₆ hI₆ hw' => ?_) hI₅
  intro db₇ _ _
  show Minted (.createRestaurant owner name place cuisines timezone label) _
  refine minted_of (fun m' hm' => ?_) (fun x hx => ?_) hw' hm ⟨b, List.mem_cons_self, hb.symm⟩
  · rcases List.mem_cons.mp hm' with hm' | hm'
    · cases hm'
    · exact (hw _ hm').elim
  · rcases List.mem_cons.mp hx with hx | hx
    · cases hx
      exact hkind
    · exact (hw _ hx).elim

/-- The read of a restaurant, and what is still there when it has been read. -/
theorem racing_read {id : RestaurantId} {S : Db → List Write → List Write → Prop}
    {E : CatalogError → Prop} {Q : Db → Restaurant → List Write → Prop}
    (hI : Regular purposeOf db) (hS : ∀ db, S db [] [])
    (hE : E .restaurantNotFound ∨ ∃ row, .restaurant row ∈ db ∧ row.id = id)
    (hQ : ∀ db' row metadata cuisines, Grows db db' → Regular purposeOf db' →
      .restaurant row ∈ db' → row.id = id →
        (∀ m, metadata = some m → .branchMetadata m ∈ db' ∧ m.restaurantId = id) →
          (row.kind = .branch → metadata ≠ none) →
            Q db' (restaurantOf row metadata cuisines) []) :
    Beside (Drawn purposeOf) Write.apply Grows (Regular purposeOf) S E (read id) Q db [] := by
  refine beside_bind Grows.refl (growing_select hS fun db₁ hg₁ hI₁ db₂ hg₂ _ => ?_) hI
  rw [show applyWrites [] db₁ = db₁ from rfl]
  cases hr : db₁.restaurant id with
  | none =>
    rcases hE with hE | ⟨row, hrow, hid⟩
    · exact hE
    · rw [restaurant_eq_some.mpr ⟨hg₁ (.restaurant row) trivial hrow, hid⟩] at hr
      cases hr
  | some row =>
    obtain ⟨hrow, hid⟩ := restaurant_eq_some.mp hr
    have hmeta : row.kind = .branch → db₁.branchMetadata id ≠ none := by
      intro hkind hnone
      obtain ⟨m, hm, hmid⟩ := hI₁.housed row hrow hkind
      rw [branchMetadata_eq_some.mpr ⟨hm, hmid.trans hid⟩] at hnone
      cases hnone
    have hthere : ¬ (row.kind = .branch ∧ db₁.branchMetadata id = none) := fun h => hmeta h.1 h.2
    simp only [Option.map_some, if_neg hthere]
    intro db₃ hg₃ hI₃ b w hq
    cases hq
    refine ⟨hS db₃, fun db₄ hg₄ hI₄ => hQ db₄ row _ _ ?_ hI₄ ?_ hid (fun m hm => ?_) hmeta⟩
    · exact (hg₁.trans hg₂).trans (hg₃.trans hg₄)
    · exact (hg₂.trans (hg₃.trans hg₄)) (.restaurant row) trivial hrow
    · obtain ⟨hmem, hmid⟩ := branchMetadata_eq_some.mp hm
      exact ⟨(hg₂.trans (hg₃.trans hg₄)) (.branchMetadata m) trivial hmem, hmid⟩

theorem racing_createBranch {brandId : RestaurantId} {label : String} {place : Place}
    {timezone : Option String} (hI : Regular purposeOf db) :
    Racing purposeOf (.createBranch brandId label place timezone)
      (createBranch zone brandId label place timezone)
      (Ended (.createBranch brandId label place timezone)) db [] := by
  refine Racing.bind (racing_read hI (fun db _ => fair_nil db) (.inl trivial)
    fun db₁ row metadata cuisines _ hI₁ hrow hid _ _ => ?_) hI
  split
  · trivial
  next hkind =>
  have hkind : row.kind = .brand := not_not.mp hkind
  have hbrand : purposeOf brandId = .brand := by
    exact (restaurant_typed hI₁.typed (restaurant_eq_some.mpr ⟨hrow, hid⟩)).1 hkind
  refine Racing.bind (racing_select fun db₂ hg₂ _ db₃ hg₃ hI₃ => ?_) hI₁
  split
  · next hfound =>
    intro db₄ hg₄ _
    obtain ⟨m, hm⟩ := Option.isSome_iff_exists.mp hfound
    obtain ⟨hmem, hm'⟩ := mem_of_branchByLabel hm
    exact ⟨m, (hg₃.trans hg₄) (.branchMetadata m) trivial hmem, hm'⟩
  refine Racing.bind (racing_select fun db₄ hg₄ _ db₅ hg₅ hI₅ => ?_) hI₃
  split
  · trivial
  refine Racing.bind (racing_insertBranch hI₅ hbrand (.inr ⟨row, ?_, hid⟩)
    (fun m hm => absurd hm List.not_mem_nil) (fun _ _ _ _ hm => hm)
    fun db₆ b m hg₆ hI₆ hm hmb hb => ?_) hI₅
  · exact ((hg₂.trans hg₃).trans (hg₄.trans hg₅)) (.restaurant row) trivial hrow
  refine Racing.bind (racing_setCuisines hI₆ ⟨b, by simp, rfl⟩ fun db₇ w hg₇ hI₇ hw => ?_) hI₆
  intro db₈ _ _
  show Minted (.createBranch brandId label place timezone) _
  exact minted_of (fun _ h => absurd h List.not_mem_nil) (fun _ h => absurd h List.not_mem_nil) hw hm
    hmb

/-- **Every statement of a creation is fair.** -/
theorem racing_body {call : Call} (hcreates : call.creates = true) (hI : Regular purposeOf db) :
    Racing purposeOf call (call.body zone) (Ended call) db [] := by
  cases call with
  | createRestaurant => exact racing_createRestaurant hI
  | createBranch => exact racing_createBranch hI
  | _ => cases hcreates

end

end Catalog
