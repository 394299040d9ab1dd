/-
A branch carries copies of its brand's name and cuisines.

* `Db.Copies`, `Alike` — every branch has the name and the cuisines of its brand;
* `Relabels`, `SameCuisines` — what a statement does to names, brands and cuisines;
* `alone_updateRestaurant` — a change of a brand's name reaches its branches, a change of
  its cuisines does not;
* `KeepsCuisines` — no update gives a brand with branches other cuisines;
* `brandCopies_of_run` — under that condition the copies agree after any sequence of mutations.
-/
import SmartFoodOps.Catalog.Frame

open Keyed Program Machine

namespace Catalog

variable {zone : String} {purposeOf : ℕ → Purpose} {db db' db'' : Db} {w : Write}
  {ws : List Write}

/-- `o` has the name and the cuisines of `b`. -/
structure Db.Copies (db : Db) (o b : RestaurantId) : Prop where
  names : ∀ x y, Row.restaurant x ∈ db → x.id = o → Row.restaurant y ∈ db → y.id = b →
    x.name = y.name
  cuisines : ∀ c, Row.restaurantCuisine o c ∈ db ↔ Row.restaurantCuisine b c ∈ db

/-- Every branch has the name and the cuisines of its brand. -/
def Alike (db : Db) : Prop :=
  ∀ m, Row.branchMetadata m ∈ db → db.Copies m.restaurantId m.brandId

/-! ### Names, brands and cuisines -/

/-- The restaurants get these names, or keep theirs; their brands stay. -/
structure Relabels (label : RestaurantId → Option String) (db db' : Db) : Prop where
  names : ∀ x, Row.restaurant x ∈ db' →
    ∃ y, Row.restaurant y ∈ db ∧ y.id = x.id ∧ x.name = (label x.id).getD y.name
  metadata : ∀ m, Row.branchMetadata m ∈ db' →
    ∃ m₀, Row.branchMetadata m₀ ∈ db ∧ m₀.restaurantId = m.restaurantId ∧ m₀.brandId = m.brandId

def SameCuisines (db db' : Db) : Prop :=
  ∀ o c, Row.restaurantCuisine o c ∈ db' ↔ Row.restaurantCuisine o c ∈ db

/-- All names, brands and cuisines stay. -/
def Still (db db' : Db) : Prop := Relabels (fun _ => none) db db' ∧ SameCuisines db db'

theorem Relabels.trans {label label' : RestaurantId → Option String}
    (h : Relabels label db db') (h' : Relabels label' db' db'') :
    Relabels (fun o => (label' o).or (label o)) db db'' where
  names x hx := by
    obtain ⟨y, hy, hid, hname⟩ := h'.names x hx
    obtain ⟨z, hz, hid', hname'⟩ := h.names y hy
    refine ⟨z, hz, hid'.trans hid, ?_⟩
    rw [hname, hname', hid]
    cases label' x.id <;> rfl
  metadata m hm := by
    obtain ⟨m₁, hm₁, hid, hb⟩ := h'.metadata m hm
    obtain ⟨m₀, hm₀, hid', hb'⟩ := h.metadata m₁ hm₁
    exact ⟨m₀, hm₀, hid'.trans hid, hb'.trans hb⟩

theorem SameCuisines.trans (h : SameCuisines db db') (h' : SameCuisines db' db'') :
    SameCuisines db db'' := fun o c => (h' o c).trans (h o c)

theorem Still.refl (db : Db) : Still db db :=
  ⟨⟨fun x hx => ⟨x, hx, rfl, rfl⟩, fun m hm => ⟨m, hm, rfl, rfl⟩⟩, fun _ _ => Iff.rfl⟩

theorem Still.trans (h : Still db db') (h' : Still db' db'') : Still db db'' :=
  ⟨h.1.trans h'.1, h.2.trans h'.2⟩

theorem still_of_keeps (hw : w.Keeps) : Still db (w.apply db) := by
  have hother : ∀ row : Row, row.key.identity = true → (∀ m, row ≠ .branchMetadata m) →
      (row ∈ w.apply db ↔ row ∈ db) := by
    intro row hrow hm
    refine mem_apply_of_ne fun hk => ?_
    unfold Write.Keeps at hw
    split at hw
    · cases row <;> first | exact hm _ rfl | cases hk
    · rw [hk, hw] at hrow
      cases hrow
  refine ⟨⟨fun x hx => ⟨x, (hother _ rfl fun m hm => ?_).mp hx, rfl, rfl⟩, fun m hm => ?_⟩,
    fun o c => hother _ rfl fun m hm => ?_⟩
  · cases hm
  swap
  · cases hm
  unfold Write.Keeps at hw
  split at hw
  · rcases mem_update.mp hm with ⟨hmem, -⟩ | ⟨x, hx, -, he⟩
    · exact ⟨m, hmem, rfl, rfl⟩
    · cases x with
      | branchMetadata m₀ =>
        cases he
        exact ⟨m₀, hx, rfl, rfl⟩
      | _ => cases he
  · refine ⟨m, (mem_apply_of_ne fun hk => ?_).mp hm, rfl, rfl⟩
    rw [← hk] at hw
    cases hw

theorem still_of_quiet (hw : w.Quiet) : Still db (w.apply db) := by
  have hmem : ∀ row : Row, row.key.identity = true → (row ∈ w.apply db ↔ row ∈ db) := by
    intro row hrow
    refine hw.mem ?_
    rintro e rfl
    cases hrow
  exact ⟨⟨fun x hx => ⟨x, (hmem _ rfl).mp hx, rfl, rfl⟩,
    fun m hm => ⟨m, (hmem _ rfl).mp hm, rfl, rfl⟩⟩, fun o c => hmem _ rfl⟩

theorem still_applyWrites {W : Write → Prop} (hW : ∀ w db, W w → Still db (w.apply db))
    (hws : ∀ w ∈ ws, W w) : Still db (applyWrites ws db) :=
  applyAll_induction (I := Still db) (fun w db' hw hI => hI.trans (hW w db' hw)) hws (.refl db)

theorem Alike.still (h : Alike db) (hs : Still db db') : Alike db' := by
  intro m hm
  obtain ⟨m₀, hm₀, hid, hb⟩ := hs.1.metadata m hm
  rw [← hid, ← hb]
  have hcopies := h m₀ hm₀
  refine ⟨fun x y hx hxid hy hyid => ?_, fun c => ?_⟩
  · obtain ⟨x₀, hx₀, hxid₀, hxname⟩ := hs.1.names x hx
    obtain ⟨y₀, hy₀, hyid₀, hyname⟩ := hs.1.names y hy
    rw [hxname, hyname]
    exact hcopies.names x₀ y₀ hx₀ (hxid₀.trans hxid) hy₀ (hyid₀.trans hyid)
  · rw [hs.2, hs.2]
    exact hcopies.cuisines c

/-! ### What an update does -/

section

variable {id : RestaurantId} {name : String} {c : RestaurantChanges} {u : Unit}

theorem alone_updateRow {there : Db → Bool} {k : Key} {p : Patch} {b : Bool}
    (h : Alone purposeOf (updateRow there k p) db b ws) :
    ws = if there db then [.update k p] else [] := by
  have hrow := (outcome_execute Write.apply (Drawn purposeOf)).mp h
  cases ht : there db with
  | true =>
    rw [ht] at hrow
    cases hrow
    rfl
  | false =>
    rw [ht] at hrow
    cases hrow
    rfl

/-- Names are written to restaurants only. -/
theorem mem_name {k : Key} {row : Row} (hrow : ∀ x, row ≠ .restaurant x) :
    row ∈ (Write.update k (.name name)).apply db ↔ row ∈ db := by
  have hpatch : ∀ x : Row, x.patch (.name name) = row → x = row := by
    intro x hx
    cases x with
    | restaurant y => exact absurd hx.symm (hrow _)
    | _ => exact hx
  rw [mem_update]
  constructor
  · rintro (⟨hmem, -⟩ | ⟨x, hx, -, he⟩)
    · exact hmem
    · rwa [← hpatch x he.symm]
  · intro hmem
    by_cases hk : row.key = k
    · refine .inr ⟨row, hmem, hk, ?_⟩
      cases row <;> first | exact absurd rfl (hrow _) | rfl
    · exact .inl ⟨hmem, hk⟩

theorem relabels_name : Relabels (fun o => if o = id then some name else none) db
      ((Write.update (.restaurant id) (.name name)).apply db) ∧
    SameCuisines db ((Write.update (.restaurant id) (.name name)).apply db) := by
  refine ⟨⟨fun x hx => ?_, fun m hm => ?_⟩, fun o c => mem_name (by nofun)⟩
  · rcases mem_update.mp hx with ⟨hmem, hk⟩ | ⟨y, hy, hk, he⟩
    · have hne : x.id ≠ id := fun he => hk (congrArg Key.restaurant he)
      refine ⟨x, hmem, rfl, ?_⟩
      rw [if_neg hne]
      rfl
    · cases y with
      | restaurant y =>
        cases he
        have hid : y.id = id := Key.restaurant.inj hk
        refine ⟨y, hy, rfl, ?_⟩
        rw [if_pos hid]
        rfl
      | _ => cases he
  · exact ⟨m, (mem_name (by nofun)).mp hm, rfl, rfl⟩

/-- One name for many restaurants. -/
theorem relabels_names {ids : List RestaurantId} :
    Relabels (fun o => if o ∈ ids then some name else none) db
        (applyWrites (ids.map fun o => .update (.restaurant o) (.name name)) db) ∧
      SameCuisines db (applyWrites (ids.map fun o => .update (.restaurant o) (.name name)) db) := by
  induction ids generalizing db with
  | nil => exact Still.refl db
  | cons o ids ih =>
    rw [List.map_cons, applyWrites_cons]
    obtain ⟨hfirst, hcuisines⟩ : Relabels (fun q => if q = o then some name else none) db
        ((Write.update (.restaurant o) (.name name)).apply db) ∧
          SameCuisines db ((Write.update (.restaurant o) (.name name)).apply db) := relabels_name
    obtain ⟨hrest, hcuisines'⟩ := @ih ((Write.update (.restaurant o) (.name name)).apply db)
    have hlabel : (fun q => if q ∈ o :: ids then some name else none) =
        fun q => (if q ∈ ids then some name else none).or (if q = o then some name else none) := by
      funext q
      by_cases hq : q ∈ ids
      · simp only [List.mem_cons, hq, or_true, if_true, Option.some_or]
      · simp only [List.mem_cons, hq, or_false, if_false, Option.none_or]
    rw [hlabel]
    exact ⟨hfirst.trans hrest, hcuisines.trans hcuisines'⟩

theorem alone_updateName (h : Alone purposeOf (updateName id name) db u ws) :
    Relabels (fun o => if o = id then some name else none) db (applyWrites ws db) ∧
      SameCuisines db (applyWrites ws db) := by
  obtain ⟨_, w, w', hrow, rfl, -, rfl⟩ := alone_bind h
  rw [List.append_nil, alone_updateRow hrow]
  split
  · exact relabels_name
  · next hnot =>
    -- there is no such restaurant
    refine ⟨⟨fun x hx => ⟨x, hx, rfl, ?_⟩, fun m hm => ⟨m, hm, rfl, rfl⟩⟩, fun _ _ => Iff.rfl⟩
    have hne : x.id ≠ id := fun he =>
      hnot (Option.isSome_iff_exists.mpr ⟨x, restaurant_eq_some.mpr ⟨hx, he⟩⟩)
    rw [if_neg hne]
    rfl

theorem still_branchOwned
    (h : Alone purposeOf (if c.branchOwned = [] then pure () else updateBranchOwned id c) db u ws) :
    Still db (applyWrites ws db) := by
  split at h
  · obtain ⟨-, rfl⟩ := h
    exact .refl db
  · obtain ⟨_, w₁, w₂, hrow, rfl, -, rfl⟩ := alone_bind h
    rw [List.append_nil, alone_updateRow hrow]
    refine still_applyWrites (W := Write.Keeps) (fun _ _ => still_of_keeps) fun w hw => ?_
    split at hw
    · obtain rfl := List.mem_singleton.mp hw
      trivial
    · cases hw

/-- The name of the restaurant changes, if one is given; its cuisines stay. -/
theorem alone_updateRestaurantRow (h : Alone purposeOf (updateRestaurantRow id c) db u ws) :
    Relabels (fun o => if o = id then c.name else none) db (applyWrites ws db) ∧
      SameCuisines db (applyWrites ws db) := by
  obtain ⟨_, w, w', hname, rfl, howned⟩ := alone_bind h
  obtain ⟨hlabels, hcuisines⟩ := still_branchOwned howned
  rw [applyWrites_append]
  cases hc : c.name with
  | none =>
    rw [hc] at hname
    obtain ⟨-, rfl⟩ := hname
    refine ⟨?_, hcuisines⟩
    simpa using hlabels
  | some name =>
    rw [hc] at hname
    obtain ⟨hnames, hsame⟩ := alone_updateName hname
    exact ⟨hnames.trans hlabels, hsame.trans hcuisines⟩

/-- The cuisines that are set, where some are. -/
theorem alone_ifSome_setCuisines {cuisines : Option (List String)}
    (h : Alone purposeOf (ifSome cuisines (setCuisines id)) db u ws) :
    Relabels (fun _ => none) db (applyWrites ws db) ∧
      ∀ o d, Row.restaurantCuisine o d ∈ applyWrites ws db ↔
        if o = id then (∃ l ∈ cuisines, d ∈ l) ∨ (cuisines = none ∧ Row.restaurantCuisine o d ∈ db)
        else Row.restaurantCuisine o d ∈ db := by
  cases cuisines with
  | none =>
    obtain ⟨-, rfl⟩ := h
    exact ⟨(Still.refl db).1, fun o d => by simp [applyWrites]⟩
  | some l =>
    have hmem := alone_setCuisines h
    refine ⟨⟨fun x hx => ?_, fun m hm => ?_⟩, fun o d => ?_⟩
    · rcases (hmem _).mp hx with ⟨d, -, hd⟩ | ⟨hx, -⟩
      · cases hd
      · exact ⟨x, hx, rfl, rfl⟩
    · rcases (hmem _).mp hm with ⟨d, -, hd⟩ | ⟨hm, -⟩
      · cases hd
      · exact ⟨m, hm, rfl, rfl⟩
    · rw [hmem]
      by_cases ho : o = id
      · simp [ho]
      · simp [ho]

/-- The name, if one is given, reaches the branches. -/
theorem alone_copyName {label : Option String}
    (h : Alone purposeOf (ifSome label (copyNameToBranches id)) db u ws) :
    Relabels (fun o => if o ∈ (db.branches id).map (·.restaurantId) then label else none) db
        (applyWrites ws db) ∧ SameCuisines db (applyWrites ws db) := by
  cases label with
  | none =>
    obtain ⟨-, rfl⟩ := h
    refine ⟨?_, (Still.refl db).2⟩
    simpa using (Still.refl db).1
  | some name =>
    cases (outcome_execute Write.apply (Drawn purposeOf)).mp h
    have hmap : ((db.branches id).map fun m => Write.update (.restaurant m.restaurantId) (.name name)) =
        ((db.branches id).map (·.restaurantId)).map fun o => .update (.restaurant o) (.name name) := by
      rw [List.map_map]
      rfl
    rw [hmap]
    exact relabels_names

end

/-! ### The mutations keep the copies -/

section

variable {id : RestaurantId} {c : RestaurantChanges} {cuisines : Option (List String)}
  {target : Target}

/-- An update of a restaurant with branches names the cuisines that it has. -/
def KeepsCuisines (db : Db) (i : Invocation) : Prop :=
  match i.1 with
  | .updateRestaurant id _ (some cuisines) => db.branches id ≠ [] →
      (∀ d ∈ cuisines, d ∈ db.cuisines id) ∧ ∀ d ∈ db.cuisines id, d ∈ cuisines
  | _ => True

instance (db : Db) (i : Invocation) : Decidable (KeepsCuisines db i) := by
  unfold KeepsCuisines
  split <;> infer_instance

/-- A branch owns neither its name nor its cuisines. -/
theorem branch_owned (h : ownedElsewhere .branch c cuisines = none) :
    c.name = none ∧ cuisines = none := by
  simp only [ownedElsewhere] at h
  split at h
  · cases h
  · next hname =>
    split at h
    · cases h
    · next hcuisines => exact ⟨by simpa using hname, by simpa using hcuisines⟩

theorem alike_updateRestaurant (hdb : Regular purposeOf db) (hco : Alike db)
    (hok : ∀ l ∈ cuisines, db.branches id ≠ [] → ∀ d, d ∈ l ↔ d ∈ db.cuisines id)
    (h : Alone purposeOf (updateRestaurant id c cuisines) db (some target) ws) :
    Alike (applyWrites ws db) := by
  unfold updateRestaurant at h
  split at h
  · exact h.elim
  obtain ⟨R, hR, hbody⟩ := alone_after_read h fun _ _ => alone_read
  split at hbody
  · exact hbody.elim
  · next howned =>
    obtain ⟨_, w₁, w, hrow, rfl, hrest⟩ := alone_bind hbody
    obtain ⟨_, w₂, w', hset, rfl, hlast⟩ := alone_bind hrest
    obtain ⟨_, w₃, w'', hcopy, rfl, -, rfl⟩ := alone_bind hlast
    obtain ⟨hname, hsame⟩ := alone_updateRestaurantRow hrow
    obtain ⟨hkept, hset⟩ := alone_ifSome_setCuisines hset
    obtain ⟨hcopied, hsame'⟩ := alone_copyName hcopy
    rw [List.append_nil, applyWrites_append, applyWrites_append]
    set db₁ := applyWrites w₁ db
    set db₂ := applyWrites w₂ db₁
    set db₃ := applyWrites w₃ db₂
    obtain ⟨hid, hbrand⟩ := read_typed hdb.typed hR
    have hlabels := (hname.trans hkept).trans hcopied
    cases hk : R.kind with
    | branch =>
      rw [hk] at howned hlabels
      obtain ⟨hn, hl⟩ := branch_owned howned
      refine hco.still ⟨?_, fun o d => ?_⟩
      · simpa [hn] using hlabels
      · rw [hsame', hset, hsame]
        simp [hl]
    | brand =>
      rw [hk] at hlabels
      have hp : purposeOf id = .brand := hid ▸ (hbrand.brand hk).1
      intro m hm
      obtain ⟨m₀, hm₀, ho, hb⟩ := hlabels.metadata m hm
      obtain ⟨m₂, hm₂, ho₂, hb₂⟩ := hcopied.metadata m hm
      have htyped : ∀ m', Row.branchMetadata m' ∈ db →
          purposeOf m'.restaurantId = .branch m'.brandId ∧ purposeOf m'.brandId = .brand :=
        fun m' hm' => hdb.typed _ hm'
      obtain ⟨hpo, hpb⟩ := htyped m₀ hm₀
      rw [ho, hb] at hpo
      rw [hb] at hpb
      have hids : ∀ q ∈ (db₂.branches id).map (·.restaurantId), purposeOf q = .branch id := by
        intro q hq
        obtain ⟨m', hm', rfl⟩ := List.mem_map.mp hq
        obtain ⟨hmem, rfl, -⟩ := mem_branches.mp hm'
        obtain ⟨m₁, hm₁, hq₁, hb₁⟩ := (hname.trans hkept).metadata m' hmem
        rw [← hq₁, ← hb₁]
        exact (htyped m₁ hm₁).1
      have hne : m.restaurantId ≠ id := by
        rintro he
        rw [he, hp] at hpo
        cases hpo
      -- the brand is no branch, so it keeps its name or has just got the new one
      have hnot : m.brandId ∉ (db₂.branches id).map (·.restaurantId) := by
        intro hmem
        rw [hids _ hmem] at hpb
        cases hpb
      have hcopies := hco m₀ hm₀
      rw [ho, hb] at hcopies
      refine ⟨fun x y hx hxid hy hyid => ?_, fun d => ?_⟩
      · obtain ⟨x₀, hx₀, hxid₀, hxname⟩ := hlabels.names x hx
        obtain ⟨y₀, hy₀, hyid₀, hyname⟩ := hlabels.names y hy
        have hsame₀ : x₀.name = y₀.name :=
          hcopies.names x₀ y₀ hx₀ (hxid₀.trans hxid) hy₀ (hyid₀.trans hyid)
        rw [hxid] at hxname
        rw [hyid] at hyname
        by_cases hbid : m.brandId = id
        · -- a branch of it is among those that get the name
          have hmem : m.restaurantId ∈ (db₂.branches id).map (·.restaurantId) := by
            obtain ⟨x₂, hx₂, hxid₂, -⟩ := hcopied.names x hx
            refine List.mem_map.mpr ⟨m₂, mem_branches.mpr ⟨hm₂, hb₂.trans hbid, x₂, ?_⟩, ho₂⟩
            rw [ho₂]
            exact restaurant_eq_some.mpr ⟨hx₂, hxid₂.trans hxid⟩
          rw [hxname, hyname, if_pos hmem, if_neg hnot, if_pos hbid, if_neg hne, hsame₀]
          cases c.name <;> rfl
        · have hmem : m.restaurantId ∉ (db₂.branches id).map (·.restaurantId) := by
            intro hmem
            rw [hids _ hmem] at hpo
            exact hbid (Purpose.branch.inj hpo).symm
          rw [hxname, hyname, if_neg hmem, if_neg hnot, if_neg hne, if_neg hbid, hsame₀]
      · rw [hsame', hsame', hset, hset, if_neg hne, hsame, hsame]
        refine (hcopies.cuisines d).trans ?_
        split
        · next hbid =>
          rw [hbid]
          cases cuisines with
          | none => simp
          | some l =>
            -- those that are set are those of before
            have hbranches : db.branches id ≠ [] := by
              obtain ⟨b, hb₀⟩ := Option.ne_none_iff_exists'.mp
                (hdb.valid.foreign _ hm₀ (.restaurant m₀.restaurantId) List.mem_cons_self)
              obtain ⟨hbmem, hbkey⟩ := Table.find_eq_some.mp hb₀
              have hrow : ∃ row, db.restaurant m₀.restaurantId = some row :=
                restaurant_isSome_iff.mpr ⟨b, hbmem, hbkey⟩
              exact List.ne_nil_of_mem (mem_branches.mpr ⟨hm₀, hb.trans hbid, hrow⟩)
            have hl := (hok l rfl hbranches d).trans mem_cuisines
            simp [hl]
        · exact Iff.rfl

/-- The restaurants that the metadata name are there. -/
def Linked (db : Db) : Prop :=
  ∀ m, Row.branchMetadata m ∈ db → (∃ x, Row.restaurant x ∈ db ∧ x.id = m.restaurantId) ∧
    ∃ y, Row.restaurant y ∈ db ∧ y.id = m.brandId

theorem linked_of_regular (hdb : Regular purposeOf db) : Linked db := by
  have hrow : ∀ {row : Row} {o : RestaurantId}, row ∈ db → .restaurant o ∈ row.references →
      ∃ x, Row.restaurant x ∈ db ∧ x.id = o := by
    intro row o hmem hk
    obtain ⟨x, hx, hkey⟩ := reference_there hdb hmem hk
    cases x with
    | restaurant x => exact ⟨x, hx, Key.restaurant.inj hkey⟩
    | _ => cases hkey
  exact fun m hm => ⟨hrow hm List.mem_cons_self,
    hrow hm (List.mem_cons_of_mem _ (List.mem_singleton_self _))⟩

/-- Beside a new restaurant `u`, the copies of before stay. -/
theorem Alike.beside {u : RestaurantId} {m : BranchMetadata} (hco : Alike db)
    (hlinked : Linked db) (hfresh : ∀ x, Row.restaurant x ∈ db → x.id ≠ u)
    (hrestaurant : ∀ x, Row.restaurant x ∈ db' → x.id = u ∨ Row.restaurant x ∈ db)
    (hcuisine : ∀ o d, o ≠ u → (Row.restaurantCuisine o d ∈ db' ↔ Row.restaurantCuisine o d ∈ db))
    (hm : Row.branchMetadata m ∈ db) : db'.Copies m.restaurantId m.brandId := by
  obtain ⟨⟨x₀, hx₀, ho⟩, y₀, hy₀, hb⟩ := hlinked m hm
  have hcopies := hco m hm
  have hold : ∀ x, Row.restaurant x ∈ db' → x.id ≠ u → Row.restaurant x ∈ db :=
    fun x hx hne => (hrestaurant x hx).resolve_left hne
  have hne : m.restaurantId ≠ u := ho ▸ hfresh x₀ hx₀
  have hne' : m.brandId ≠ u := hb ▸ hfresh y₀ hy₀
  refine ⟨fun x y hx hxid hy hyid => ?_, fun d => ?_⟩
  · exact hcopies.names x y (hold x hx (hxid ▸ hne)) hxid (hold y hy (hyid ▸ hne')) hyid
  · rw [hcuisine _ d hne, hcuisine _ d hne']
    exact hcopies.cuisines d

/-- A new branch with its brand's name and cuisines. -/
theorem Alike.withBranch {brandId : RestaurantId} {b : RestaurantRow} {m : BranchMetadata}
    {l : List String} (hco : Alike db) (hlinked : Linked db)
    (hnew : NewBranch purposeOf db brandId b m) (hwith : WithBranch db db' b m l)
    (hbrand : ∃ y, Row.restaurant y ∈ db ∧ y.id = brandId ∧ b.name = y.name)
    (hl : ∀ d, d ∈ l ↔ Row.restaurantCuisine brandId d ∈ db) : Alike db' := by
  have hfresh : ∀ x, Row.restaurant x ∈ db → x.id ≠ b.id := fun x hx he =>
    Table.find_eq_none.mp hnew.fresh _ hx (congrArg Key.restaurant he)
  have hrestaurant : ∀ x, Row.restaurant x ∈ db' → x = b ∨ Row.restaurant x ∈ db := by
    intro x hx
    rcases (hwith _).mp hx with ⟨d, -, hd⟩ | ⟨hx, -⟩
    · cases hd
    · simpa using hx
  have hcuisine : ∀ o d, o ≠ b.id →
      (Row.restaurantCuisine o d ∈ db' ↔ Row.restaurantCuisine o d ∈ db) := by
    intro o d ho
    rw [hwith]
    simp [ho]
  have hown : ∀ d, Row.restaurantCuisine b.id d ∈ db' ↔ d ∈ l := by
    intro d
    rw [hwith]
    simp
  intro m' hm'
  rcases (hwith _).mp hm' with ⟨d, -, hd⟩ | ⟨hm | hb | hold, -⟩
  · cases hd
  · cases hm
    obtain ⟨y, hy, hyid, hname⟩ := hbrand
    rw [hnew.metadata, hnew.brand]
    have hne : brandId ≠ b.id := hyid ▸ hfresh y hy
    refine ⟨fun x z hx hxid hz hzid => ?_, fun d => ?_⟩
    · rcases hrestaurant x hx with rfl | hx
      · rcases hrestaurant z hz with rfl | hz
        · rfl
        · have hsame : Row.restaurant z = .restaurant y :=
            Table.eq_of_key hz hy (congrArg Key.restaurant (hzid.trans hyid.symm))
          cases hsame
          exact hname
      · exact absurd hxid (hfresh x hx)
    · rw [hown, hcuisine _ d hne]
      exact hl d
  · cases hb
  · refine hco.beside hlinked hfresh (fun x hx => ?_) hcuisine hold
    exact (hrestaurant x hx).imp_left fun he => congrArg RestaurantRow.id he

theorem alike_createBranch {brandId : RestaurantId} {label : String} {place : Place}
    {timezone : Option String} (hdb : Regular purposeOf db) (hco : Alike db)
    (h : Alone purposeOf (createBranch zone brandId label place timezone) db (some target) ws) :
    Alike (applyWrites ws db) := by
  obtain ⟨brand, b, m, hread, -, hname, hnew, -, hwith⟩ := alone_createBranch h
  obtain ⟨row, hrow, -, rfl⟩ := read_eq_some.mp hread
  obtain ⟨hmem, hid⟩ := restaurant_eq_some.mp hrow
  exact hco.withBranch (linked_of_regular hdb) hnew hwith ⟨row, hmem, hid, hname⟩
    fun d => mem_cuisines

theorem alike_createRestaurant {owner name : String} {place : Place} {l : List String}
    {timezone label : Option String} (hdb : Regular purposeOf db) (hco : Alike db)
    (h : Alone purposeOf (createRestaurant zone owner name place l timezone label) db
      (some target) ws) : Alike (applyWrites ws db) := by
  obtain ⟨brand, b, m, db₁, -, hfresh, -, hname, hnew, -, hdb₁, hwith⟩ := alone_createRestaurant h
  have hlinked := linked_of_regular hdb
  have hold : ∀ x, Row.restaurant x ∈ db → x.id ≠ brand.id := fun x hx he =>
    Table.find_eq_none.mp hfresh _ hx (congrArg Key.restaurant he)
  have hrestaurant : ∀ x, Row.restaurant x ∈ db₁ ↔ x = brand ∨ Row.restaurant x ∈ db := by
    intro x
    rw [hdb₁]
    simp
  have hmeta : ∀ m', Row.branchMetadata m' ∈ db₁ ↔ Row.branchMetadata m' ∈ db := by
    intro m'
    rw [hdb₁]
    simp
  have hcuisine : ∀ o d, o ≠ brand.id →
      (Row.restaurantCuisine o d ∈ db₁ ↔ Row.restaurantCuisine o d ∈ db) := by
    intro o d ho
    rw [hdb₁]
    simp [ho]
  have hlinked₁ : Linked db₁ := by
    intro m' hm'
    obtain ⟨⟨x, hx, hxid⟩, y, hy, hyid⟩ := hlinked m' ((hmeta m').mp hm')
    exact ⟨⟨x, (hrestaurant x).mpr (.inr hx), hxid⟩, y, (hrestaurant y).mpr (.inr hy), hyid⟩
  have hco₁ : Alike db₁ := by
    intro m' hm'
    refine hco.beside hlinked hold (fun x hx => ?_) hcuisine ((hmeta m').mp hm')
    exact ((hrestaurant x).mp hx).imp_left fun he => congrArg RestaurantRow.id he
  refine hco₁.withBranch hlinked₁ hnew hwith ⟨brand, (hrestaurant brand).mpr (.inl rfl), rfl, hname⟩
    fun d => ?_
  rw [hdb₁]
  simp

/-- **A mutation that keeps the cuisines keeps the copies.** -/
theorem alike_invoke {i : Invocation} (hdb : Regular purposeOf db) (hco : Alike db)
    (hok : KeepsCuisines db i) (h : invoke zone purposeOf db i = some db') : Alike db' := by
  obtain ⟨⟨ans, ws⟩, hcall, rfl⟩ := Option.map_eq_some_iff.mp h
  obtain ⟨call, draws⟩ := i
  rcases call_cases hcall with rfl | ⟨target, edits, staged, affected, -, rfl, hc⟩
  · exact hco
  have hedits : Alike (applyWrites edits db) := by
    cases hid : call.identity with
    | false =>
      obtain ⟨r, -, hplain⟩ := body_plain purposeOf zone hid
      exact hco.still (still_applyWrites (W := Write.Keeps) (fun _ _ => still_of_keeps)
        fun w hw => ((hc.edits_of hdb.typed hplain).2 w hw).2)
    | true =>
      cases call with
      | createRestaurant => exact alike_createRestaurant hdb hco hc.body
      | updateRestaurant id c cuisines =>
        refine alike_updateRestaurant hdb hco (fun l hl hb d => ?_) hc.body
        obtain rfl : cuisines = some l := hl
        exact ⟨(hok hb).1 d, (hok hb).2 d⟩
      | createBranch => exact alike_createBranch hdb hco hc.body
      | _ => cases hid
  show Alike (applyWrites (edits ++ staged) db)
  rw [applyWrites_append]
  exact hedits.still (still_applyWrites (W := Write.Quiet) (fun _ _ => still_of_quiet)
    fun w hw => (hc.tells hdb.typed w hw).quiet)

end

/-! ### After any sequence of mutations -/

/-- Every branch has a brand, and its name and its cuisines. -/
def BrandCopies (db : Db) : Prop :=
  ∀ b, Row.restaurant b ∈ db → b.kind = .branch →
    ∃ m p, Row.branchMetadata m ∈ db ∧ m.restaurantId = b.id ∧ Row.restaurant p ∈ db ∧
      p.id = m.brandId ∧ p.kind = .brand ∧ b.name = p.name ∧
        ∀ d, Row.restaurantCuisine b.id d ∈ db ↔ Row.restaurantCuisine p.id d ∈ db

variable {is : List Invocation}

/-- **As long as no update gives a brand other cuisines, every branch has the name and the
cuisines of its brand.** -/
theorem brandCopies_of_run (h : Run (invoke zone purposeOf) KeepsCuisines .empty is db) :
    BrandCopies db := by
  obtain ⟨hdb, hco⟩ : Regular purposeOf db ∧ Alike db := by
    refine h.invariant (I := fun db => Regular purposeOf db ∧ Alike db) ?_ ?_
    · exact ⟨regular_empty, fun _ hm => absurd hm Table.not_mem_empty⟩
    · exact fun _ _ _ hI hok hs => ⟨hI.1.invoke hs, alike_invoke hI.1 hI.2 hok hs⟩
  intro b hb hkind
  obtain ⟨m, hm, hid⟩ := hdb.housed b hb hkind
  obtain ⟨-, p, hp, hpid⟩ := linked_of_regular hdb m hm
  have hcopies := hco m hm
  rw [hid, ← hpid] at hcopies
  refine ⟨m, p, hm, hid, hp, hpid, ?_, hcopies.names b p hb rfl hp rfl, hcopies.cuisines⟩
  -- the metadata name a brand
  have hbrand : purposeOf p.id = .brand := by
    rw [hpid]
    exact (hdb.typed _ hm).2
  have ht : Row.Typed purposeOf (.restaurant p) := hdb.typed _ hp
  cases hk : p.kind with
  | brand => rfl
  | branch =>
    simp only [Row.Typed, hk, hbrand] at ht
    obtain ⟨b', hb', -⟩ := ht
    cases hb'

/-- The brand is renamed, and its branch with it. -/
def newName : List Invocation :=
  [(.createRestaurant "owner" "Diner" ⟨"Pune", none, none, none⟩ ["thai"] none none,
      [1, 2, 0, 10, 11]),
    (.updateRestaurant 1 { name := some "Bistro" } none, [0, 12, 13])]

/-- The brand gets another cuisine. -/
def newCuisines : List Invocation :=
  [(.createRestaurant "owner" "Diner" ⟨"Pune", none, none, none⟩ ["thai"] none none,
      [1, 2, 0, 10, 11]),
    (.updateRestaurant 1 {} (some ["bbq"]), [0, 12, 13])]

theorem brandCopies_of_newName : ∃ db,
    Run (invoke "UTC" demoPurposes) KeepsCuisines .empty newName db ∧
      Row.restaurant ⟨2, "owner", "Bistro", .branch⟩ ∈ db ∧ BrandCopies db := by
  obtain ⟨db, hrun, hp⟩ : ∃ db, Run (invoke "UTC" demoPurposes) KeepsCuisines .empty newName db ∧
      decide (Row.restaurant (RestaurantRow.mk 2 "owner" "Bistro" .branch) ∈ db) = true :=
    exists_run_of_execOk (by decide +kernel)
  exact ⟨db, hrun, of_decide_eq_true hp, brandCopies_of_run hrun⟩

/-- **A brand's new cuisines do not reach its branches.** -/
theorem cuisines_stay_behind : ¬ ∀ (zone : String) (purposeOf : ℕ → Purpose)
    (is : List Invocation) (db : Db), Run (invoke zone purposeOf) Always .empty is db →
      BrandCopies db := by
  intro h
  obtain ⟨db, hrun, hp⟩ : ∃ db, Run (invoke "UTC" demoPurposes) Always .empty newCuisines db ∧
      decide (Row.restaurant (RestaurantRow.mk 2 "owner" "Diner" .branch) ∈ db ∧
        (db.branchMetadata 2).map (·.brandId) = some 1 ∧ Row.restaurantCuisine 1 "bbq" ∈ db ∧
          Row.restaurantCuisine 2 "bbq" ∉ db) = true := exists_run_of_execOk (by decide +kernel)
  obtain ⟨hb, hm, hbrand, hbranch⟩ := of_decide_eq_true hp
  obtain ⟨m, p, hmem, hid, hpmem, hpid, -, -, hcuisines⟩ := h _ _ _ db hrun _ hb rfl
  obtain ⟨m', hm', hbid⟩ := Option.map_eq_some_iff.mp hm
  -- branch 2 has one metadata row, and it names brand 1
  have hsame : db.branchMetadata 2 = some m := branchMetadata_eq_some.mpr ⟨hmem, hid⟩
  rw [hm'] at hsame
  cases hsame
  rw [hpid, hbid] at hcuisines
  exact hbranch ((hcuisines "bbq").mpr hbrand)

end Catalog
