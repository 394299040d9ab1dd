/-
Deletes and what refers to the rows that they delete.

A branch files items under the categories of its brand, and 86es items of its brand.  The
deletes look at the rows of the caller only.

* `Db.Closed` — nothing refers to a category or an item that is not there;
* `run_deleteCategory`, `run_deleteItem` — what the bodies do, alone;
* `mem_deleteCategory`, `alone_deleteItem` — the rows after them;
* `Call.Strands` — some row would be left without its category or its item;
* `keepsClosure_iff` — a delete ends well or is refused unless it strands a row; otherwise
  it fails on a foreign key.
-/
import SmartFoodOps.Catalog.Frame

open Keyed Program Machine

namespace Catalog

variable {zone : String} {purposeOf : ℕ → Purpose} {db db' : Db} {r : RestaurantId}
  {c : CategoryId} {i : ItemId} {row : Row} {ws : List Write} {draws : List ℕ}

/-- Nothing refers to a category or to an item that is not there. -/
structure Db.Closed (db : Db) : Prop where
  items : ∀ x, Row.menuItem x ∈ db → ∃ c, Row.menuCategory c ∈ db ∧ c.id = x.categoryId
  tags : ∀ i t, Row.itemTag i t ∈ db → ∃ x, Row.menuItem x ∈ db ∧ x.id = i
  groups : ∀ g, Row.modifierGroup g ∈ db → ∃ x, Row.menuItem x ∈ db ∧ x.id = g.itemId
  options : ∀ p, Row.modifierOption p ∈ db → ∃ g, Row.modifierGroup g ∈ db ∧ g.id = p.groupId
  overrides : ∀ b i, Row.branchItemOverride b i ∈ db → ∃ x, Row.menuItem x ∈ db ∧ x.id = i

theorem closed_of_regular (h : Regular purposeOf db) : db.Closed where
  items x hx := by
    obtain ⟨y, hy, hk⟩ := reference_there h hx (List.mem_cons_of_mem _ (List.mem_singleton_self _))
    cases y with
    | menuCategory c => exact ⟨c, hy, Key.menuCategory.inj hk⟩
    | _ => cases hk
  tags i t ht := by
    obtain ⟨x, hx, hid, -⟩ := item_there h ht (List.mem_singleton_self _)
    exact ⟨x, hx, hid⟩
  groups g hg := by
    obtain ⟨x, hx, hid, -⟩ := item_there h hg (List.mem_singleton_self _)
    exact ⟨x, hx, hid⟩
  options p hp := by
    obtain ⟨g, hg, hid, -⟩ := group_there h hp (List.mem_singleton_self _)
    exact ⟨g, hg, hid⟩
  overrides b i hb := by
    obtain ⟨x, hx, hid, -⟩ :=
      item_there h hb (List.mem_cons_of_mem _ (List.mem_singleton_self _))
    exact ⟨x, hx, hid⟩

/-! ### What the deletes do -/

theorem run_deleteCategory :
    (deleteCategory r c).run Write.apply (Drawn purposeOf) db [] draws =
      if db.category r c = none then some (.error .categoryNotFound, draws)
      else if 0 < db.categoryItems r c then some (.error .categoryNotEmpty, draws)
      else
        some (.ok (some ⟨r, .categoryDeleted, true⟩, [.delete (.menuCategory c)]), draws) := by
  by_cases h : db.category r c = none
  · simp [deleteCategory, run_bind, run_select, Prog.runNext, Prog.run, h]
  · by_cases hn : 0 < db.categoryItems r c
    · simp [deleteCategory, run_bind, run_select, Prog.runNext, Prog.run, h, hn]
    · simp [deleteCategory, deleteRows, run_bind, run_select, run_execute, Prog.runNext, Prog.run,
        h, hn]

/-- Past its guard, the body of `delete_item` raises nothing. -/
theorem run_deleteItem (purposeOf : ℕ → Purpose) (draws : List ℕ) (h : db.item r i ≠ none) :
    ∃ edits, (deleteItem r i).run Write.apply (Drawn purposeOf) db [] draws =
      some (.ok (some ⟨r, .itemDeleted, true⟩, edits), draws) := by
  simp [deleteItem, deleteItemModifiers, deleteRows, run_bind, run_select, run_execute,
    Prog.runNext, Prog.run, h]

theorem run_deleteItem_missing (h : db.item r i = none) :
    (deleteItem r i).run Write.apply (Drawn purposeOf) db [] draws =
      some (.error .itemNotFound, draws) := by
  simp [deleteItem, run_bind, run_select, Prog.runNext, Prog.run, h]

/-- The keys of some rows that are there are the keys of no others. -/
theorem key_mem_rows {α : Type} {f : α → Row} {l : List α} (hl : ∀ a ∈ l, f a ∈ db)
    (hrow : row ∈ db) : row.key ∈ l.map (fun a => (f a).key) ↔ ∃ a ∈ l, row = f a := by
  rw [List.mem_map]
  refine exists_congr fun a => and_congr_right fun ha => ?_
  exact ⟨fun hk => Table.eq_of_key hrow (hl a ha) hk.symm, fun he => congrArg Row.key he.symm⟩

/-- The row is the item, or a tag, a group or an option of it. -/
def Db.Describes (db : Db) (i : ItemId) : Row → Prop
  | .menuItem x => x.id = i
  | .itemTag j _ => j = i
  | .modifierGroup g => g.itemId = i
  | .modifierOption p => ∃ g, Row.modifierGroup g ∈ db ∧ g.id = p.groupId ∧ g.itemId = i
  | _ => False

/-- The options of the item go, and then its groups. -/
theorem alone_deleteItemModifiers {u : Unit} (h : Alone purposeOf (deleteItemModifiers i) db u ws) :
    row ∈ applyWrites ws db ↔ row ∈ db ∧ (∀ p, row = .modifierOption p → ¬ db.Describes i row) ∧
      ∀ g, row = .modifierGroup g → ¬ db.Describes i row := by
  obtain ⟨_, w, w', hoptions, rfl, hgroups⟩ := alone_bind h
  obtain ⟨-, hoptions⟩ := alone_deleteRows hoptions
  obtain ⟨-, hgroups⟩ := alone_deleteRows hgroups
  rw [applyWrites_append, hgroups, hoptions, and_assoc]
  refine and_congr_right fun hrow => and_congr ?_ ?_
  · have hkeys := key_mem_rows (f := Row.modifierOption)
      (l := db.options ((db.groups [i]).map (·.id))) (fun p hp => (mem_options.mp hp).1) hrow
    refine (not_congr hkeys).trans ?_
    constructor
    · rintro hnot p rfl ⟨g, hg, hgid, hgi⟩
      refine hnot ⟨p, mem_options.mpr ⟨hrow, List.mem_map.mpr ⟨g, ?_, hgid⟩⟩, rfl⟩
      exact mem_groups.mpr ⟨hg, List.mem_singleton.mpr hgi⟩
    · rintro hnot ⟨p, hp, rfl⟩
      obtain ⟨g, hg, hgid⟩ := List.mem_map.mp (mem_options.mp hp).2
      obtain ⟨hgmem, hgi⟩ := mem_groups.mp hg
      exact hnot p rfl ⟨g, hgmem, hgid, List.mem_singleton.mp hgi⟩
  · -- no option is a group, so the groups are still all there
    have hsame : ∀ g, Row.modifierGroup g ∈ applyWrites w db ↔ Row.modifierGroup g ∈ db := by
      intro g
      refine (hoptions _).trans (and_iff_left fun hk => ?_)
      obtain ⟨p, -, hk⟩ := List.mem_map.mp hk
      cases hk
    have hmem : ∀ g, g ∈ (applyWrites w db).groups [i] ↔ Row.modifierGroup g ∈ db ∧ g.itemId = i := by
      intro g
      rw [mem_groups, hsame, List.mem_singleton]
    have hkeys := key_mem_rows (f := Row.modifierGroup) (l := (applyWrites w db).groups [i])
      (fun g hg => ((hmem g).mp hg).1) hrow
    refine (not_congr hkeys).trans ?_
    constructor
    · rintro hnot g rfl hgi
      exact hnot ⟨g, (hmem g).mpr ⟨hrow, hgi⟩, rfl⟩
    · rintro hnot ⟨g, hg, rfl⟩
      exact hnot g rfl ((hmem g).mp hg).2

/-- The item goes, with its tags, groups and options. -/
theorem alone_deleteItem {target : Target} (h : Alone purposeOf (deleteItem r i) db (some target) ws) :
    row ∈ applyWrites ws db ↔ row ∈ db ∧ ¬ db.Describes i row := by
  obtain ⟨o, rfl, hbody⟩ := alone_after_read h alone_select
  split at hbody
  · exact hbody.elim
  · obtain ⟨_, w₁, w, hmodifiers, rfl, hrest⟩ := alone_bind hbody
    obtain ⟨_, w₂, w', htags, rfl, hlast⟩ := alone_bind hrest
    obtain ⟨_, w₃, w'', hitem, rfl, -, rfl⟩ := alone_bind hlast
    obtain ⟨-, htags⟩ := alone_deleteRows htags
    obtain ⟨-, hitem⟩ := alone_deleteRows hitem
    rw [List.append_nil, applyWrites_append, applyWrites_append, hitem, htags,
      alone_deleteItemModifiers hmodifiers, and_assoc, and_assoc]
    refine and_congr_right fun hrow => ?_
    have htag : row.key ∉ ((applyWrites w₁ db).tags [i]).map (fun t => Key.itemTag t.1 t.2) ↔
        ∀ j t, row = .itemTag j t → ¬ db.Describes i row := by
      constructor
      · rintro hnot j t rfl rfl
        refine hnot (List.mem_map.mpr ⟨(j, t), mem_tags.mpr ⟨?_, List.mem_singleton_self _⟩, rfl⟩)
        exact (alone_deleteItemModifiers hmodifiers).mpr ⟨hrow, (by simp), (by simp)⟩
      · intro hnot hk
        obtain ⟨⟨j, t⟩, ht, hk⟩ := List.mem_map.mp hk
        have hj : j = i := List.mem_singleton.mp (mem_tags.mp ht).2
        cases row <;> cases hk
        exact hnot _ _ rfl hj
    have hself : row.key ∉ (if (applyWrites w₂ (applyWrites w₁ db)).find (.menuItem i) = none then []
        else [Key.menuItem i]) ↔ ∀ x, row = .menuItem x → ¬ db.Describes i row := by
      constructor
      · rintro hnot x rfl rfl
        -- the item is still there
        have hmem : Row.menuItem x ∈ applyWrites w₂ (applyWrites w₁ db) := by
          refine (htags _).mpr ⟨(alone_deleteItemModifiers hmodifiers).mpr ⟨hrow, (by simp), (by simp)⟩, fun hk => ?_⟩
          obtain ⟨t, -, hk⟩ := List.mem_map.mp hk
          cases hk
        refine hnot ?_
        split
        · next hnone => exact absurd rfl (Table.find_eq_none.mp hnone _ hmem)
        · exact List.mem_singleton_self _
      · intro hnot hk
        split at hk
        · cases hk
        · have hk : row.key = .menuItem i := List.mem_singleton.mp hk
          cases row with
          | menuItem x => exact hnot x rfl (Key.menuItem.inj hk)
          | _ => cases hk
    rw [htag, hself]
    cases row <;> simp [Db.Describes]

/-! ### Foreign keys after a delete -/

/-- Rows that nobody refers to can go. -/
theorem valid_of_gone {Gone : Row → Prop} (h : db.Valid)
    (hmem : ∀ row : Row, row ∈ db' ↔ row ∈ db ∧ ¬ Gone row)
    (hrefs : ∀ row x : Row, row ∈ db → ¬ Gone row → x ∈ db → x.key ∈ row.references → ¬ Gone x) :
    db'.Valid := by
  constructor
  · intro row hrow k hk
    obtain ⟨hrow, hstays⟩ := (hmem row).mp hrow
    obtain ⟨x, hfind⟩ := Option.ne_none_iff_exists'.mp (h.foreign row hrow k hk)
    obtain ⟨hx, rfl⟩ := Table.find_eq_some.mp hfind
    have hx' := (hmem x).mpr ⟨hx, hrefs row x hrow hstays hx hk⟩
    exact fun hnone => Table.find_eq_none.mp hnone x hx' rfl
  · intro row hrow row' hrow' hne he
    exact h.unique row ((hmem row).mp hrow).1 row' ((hmem row').mp hrow').1 hne he

/-- A row that refers to a row that is gone breaks a foreign key. -/
theorem not_valid_of_gone {k : Key} (hrow : row ∈ db') (hk : k ∈ row.references)
    (hgone : ∀ x ∈ db', x.key ≠ k) : ¬ db'.Valid :=
  fun h => h.foreign row hrow k hk (Table.find_eq_none.mpr hgone)

theorem valid_deleteCategory (h : db.Valid) :
    (applyWrites [.delete (.menuCategory c)] db).Valid ↔
      ¬ ∃ x, Row.menuItem x ∈ db ∧ x.categoryId = c := by
  have hmem : ∀ row : Row, row ∈ applyWrites [.delete (.menuCategory c)] db ↔
      row ∈ db ∧ ¬ row.key = .menuCategory c := fun row => mem_delete
  constructor
  · rintro hvalid ⟨x, hx, rfl⟩
    refine not_valid_of_gone ((hmem _).mpr ⟨hx, nofun⟩) ?_
      (fun y hy => ((hmem y).mp hy).2) hvalid
    exact List.mem_cons_of_mem _ (List.mem_singleton_self _)
  · intro hnone
    refine valid_of_gone h hmem fun row x hrow _ _ hk hgone => ?_
    rw [hgone] at hk
    cases row with
    | menuItem y =>
      have hy : y.categoryId = c := by simpa [Row.references, eq_comm] using hk
      exact hnone ⟨y, hrow, hy⟩
    | _ => simp [Row.references] at hk

theorem valid_deleteItem {target : Target} (h : db.Valid)
    (hbody : Alone purposeOf (deleteItem r i) db (some target) ws) :
    (applyWrites ws db).Valid ↔ ¬ ∃ b, Row.branchItemOverride b i ∈ db := by
  have hmem : ∀ row : Row, row ∈ applyWrites ws db ↔ row ∈ db ∧ ¬ db.Describes i row :=
    fun row => alone_deleteItem hbody
  constructor
  · rintro hvalid ⟨b, hb⟩
    refine not_valid_of_gone ((hmem _).mpr ⟨hb, id⟩) (k := .menuItem i) ?_ (fun x hx hk => ?_) hvalid
    · exact List.mem_cons_of_mem _ (List.mem_singleton_self _)
    · cases x with
      | menuItem y => exact ((hmem _).mp hx).2 (Key.menuItem.inj hk)
      | _ => cases hk
  · intro hnone
    refine valid_of_gone h hmem fun row x hrow hstays hx hk hgone => ?_
    -- what refers to the item or to a group of it describes the item too, or is an override
    cases x with
    | menuItem y =>
      obtain rfl : y.id = i := hgone
      cases row with
      | branchItemOverride b j =>
        have hj : j = y.id := by simpa [Row.references, Row.key, eq_comm] using hk
        exact hnone ⟨b, hj ▸ hrow⟩
      | itemTag j t =>
        have hj : j = y.id := by simpa [Row.references, Row.key, eq_comm] using hk
        exact hstays hj
      | modifierGroup g =>
        have hg : g.itemId = y.id := by simpa [Row.references, Row.key, eq_comm] using hk
        exact hstays hg
      | _ => simp [Row.references, Row.key] at hk
    | modifierGroup g =>
      cases row with
      | modifierOption p =>
        have hp : g.id = p.groupId := by simpa [Row.references, Row.key] using hk
        exact hstays ⟨g, hx, hp, hgone⟩
      | _ => simp [Row.references, Row.key] at hk
    | itemTag | modifierOption => cases row <;> simp [Row.references, Row.key] at hk
    | _ => exact hgone

/-! ### Deletes after any sequence of mutations -/

/-- `delete_category` or `delete_item`. -/
def Call.deletes : Call → Bool
  | deleteCategory .. | deleteItem .. => true
  | _ => false

/-- The guards let the delete through, and a row would be left without its category or its
item. -/
def Call.Strands (db : Db) : Call → Prop
  | deleteCategory r c => db.category r c ≠ none ∧ db.categoryItems r c = 0 ∧
      ∃ x, Row.menuItem x ∈ db ∧ x.categoryId = c
  | deleteItem r i => db.item r i ≠ none ∧ ∃ b, Row.branchItemOverride b i ∈ db
  | _ => False

/-- The call raises a domain error and leaves the tables, or it succeeds and leaves them
closed. -/
def KeepsClosure (db : Db) (ans : Answer) (ws : List Write) : Prop :=
  (∃ e, ans = .raised e ∧ applyWrites ws db = db) ∨
    (ans = .answered ∧ (applyWrites ws db).Closed)

/-- The body of a delete is refused, or it deletes; then the foreign keys hold unless it
strands a row. -/
theorem bodyRun_of_deletes (zone : String) (purposeOf : ℕ → Purpose) (draws : List ℕ)
    {call : Call} (hdel : call.deletes = true) (h : db.Valid) :
    (∃ e, call.bodyRun zone purposeOf db draws = some (.error e, draws) ∧ ¬ call.Strands db) ∨
      ∃ target edits,
        call.bodyRun zone purposeOf db draws = some (.ok (some target, edits), draws) ∧
          ((applyWrites edits db).Valid ↔ ¬ call.Strands db) := by
  cases call with
  | deleteCategory r c =>
    have hrun : (Call.deleteCategory r c).bodyRun zone purposeOf db draws = _ := run_deleteCategory
    rw [hrun]
    split
    · next hnone => exact .inl ⟨_, rfl, fun hs => hs.1 hnone⟩
    · next hthere =>
      split
      · next hitems => exact .inl ⟨_, rfl, fun hs => hitems.ne' hs.2.1⟩
      · next hitems =>
        refine .inr ⟨_, _, rfl, (valid_deleteCategory h).trans (not_congr ?_)⟩
        exact ⟨fun hx => ⟨hthere, Nat.eq_zero_of_not_pos hitems, hx⟩, fun hs => hs.2.2⟩
  | deleteItem r i =>
    by_cases hthere : db.item r i = none
    · exact .inl ⟨_, run_deleteItem_missing hthere, fun hs => hs.1 hthere⟩
    · obtain ⟨edits, hrun⟩ := run_deleteItem purposeOf draws hthere
      obtain ⟨edits', rfl, hbody⟩ := run_outcome Write.apply (Drawn purposeOf) hrun
      refine .inr ⟨_, _, hrun, (valid_deleteItem h hbody).trans (not_congr ?_)⟩
      exact (and_iff_right hthere).symm
  | _ => cases hdel

variable {call : Call} {ans : Answer} {is : List Invocation}

/-- **A delete keeps closure, or is refused, exactly when it strands no row.** -/
theorem keepsClosure_iff (h : Run (invoke zone purposeOf) Always .empty is db)
    (hdel : call.deletes = true) (hcall : db.call zone purposeOf call draws = some (ans, ws)) :
    KeepsClosure db ans ws ↔ ¬ call.Strands db := by
  have hdb := regular_of_run h
  rcases bodyRun_of_deletes zone purposeOf draws hdel hdb.valid with
    ⟨e, hrun, hno⟩ | ⟨target, edits, hrun, hvalid⟩
  · -- its guards refuse it
    refine iff_of_true ?_ hno
    cases call_called hcall with
    | refused => exact .inl ⟨_, rfl, rfl⟩
    | same hrun' | violated hrun' | commits hrun' =>
      rw [hrun] at hrun'
      cases hrun'
    | unpublished => exact .inl ⟨_, rfl, rfl⟩
  · cases call_called hcall with
    | refused hrun' | same hrun' =>
      rw [hrun] at hrun'
      cases hrun'
    | violated hrun' hnot =>
      rw [hrun] at hrun'
      cases hrun'
      refine iff_of_false ?_ (not_not.mpr (not_not.mp fun hs => hnot (hvalid.mpr hs)))
      rintro (⟨e, he, -⟩ | ⟨he, -⟩) <;> cases he
    | unpublished hrun' hv =>
      rw [hrun] at hrun'
      cases hrun'
      exact iff_of_true (.inl ⟨_, rfl, rfl⟩) (hvalid.mp hv)
    | commits hrun' hc =>
      rw [hrun] at hrun'
      cases hrun'
      exact iff_of_true (.inr ⟨rfl, closed_of_regular (hc.regular hdb)⟩) (hvalid.mp hc.valid)

/-! ### Deletes that fail -/

def sharedPurposes : ℕ → Purpose
  | 1 => .brand
  | 2 => .branch 1
  | 3 => .category 1
  | 4 => .item 2
  | 5 => .item 1
  | _ => .event

def soup : ItemFields := ⟨"Soup", none, 500, "USD", true, 0⟩

/-- Brand 1 with branch 2 and category 3. -/
def opening : List Invocation :=
  [(.createRestaurant "owner" "Diner" ⟨"Pune", none, none, none⟩ [] none none, [1, 2, 0, 10, 11]),
    (.addCategory 1 "Soups" 0, [3, 0, 12, 13])]

/-- The branch files an item under the brand's category. -/
def filing : List Invocation := opening ++ [(.addItem 2 3 soup [] [], [4, 0, 14])]

/-- The branch 86es an item of the brand. -/
def eightySix : List Invocation :=
  opening ++ [(.addItem 1 3 soup [] [], [5, 0, 14, 15]),
    (.setBaseItemAvailability 2 5 false, [0, 16])]

theorem keepsClosure_of_opening : ∃ (db : Db) (ws : List Write),
    Run (invoke "UTC" sharedPurposes) Always .empty opening db ∧
      db.call "UTC" sharedPurposes (.deleteCategory 1 3) [0, 14, 15] = some (.answered, ws) ∧
        (KeepsClosure db .answered ws ↔ ¬ (Call.deleteCategory 1 3).Strands db) := by
  obtain ⟨db, hrun, hp⟩ : ∃ db, Run (invoke "UTC" sharedPurposes) Always .empty opening db ∧
      decide ((db.call "UTC" sharedPurposes (.deleteCategory 1 3) [0, 14, 15]).map Prod.fst =
        some .answered) = true := exists_run_of_execOk (by decide +kernel)
  obtain ⟨⟨ans, ws⟩, hcall, rfl⟩ := Option.map_eq_some_iff.mp (of_decide_eq_true hp)
  exact ⟨db, ws, hrun, hcall, keepsClosure_iff hrun rfl hcall⟩

/-- **A category of the brand that holds an item of a branch, and an item of the brand that a
branch has 86'd, are deleted into a foreign key.** -/
theorem deletes_violate :
    (¬ ∀ (zone : String) (purposeOf : ℕ → Purpose) (is : List Invocation) (db : Db),
        Run (invoke zone purposeOf) Always .empty is db → ∀ r c draws ans ws,
          db.call zone purposeOf (.deleteCategory r c) draws = some (ans, ws) →
            KeepsClosure db ans ws) ∧
      ¬ ∀ (zone : String) (purposeOf : ℕ → Purpose) (is : List Invocation) (db : Db),
        Run (invoke zone purposeOf) Always .empty is db → ∀ r i draws ans ws,
          db.call zone purposeOf (.deleteItem r i) draws = some (ans, ws) →
            KeepsClosure db ans ws := by
  have hviolated : ∀ (db : Db) (ws : List Write), ¬ KeepsClosure db .violated ws := by
    rintro db ws (⟨e, he, -⟩ | ⟨he, -⟩) <;> cases he
  constructor
  · intro h
    obtain ⟨db, hrun, hp⟩ : ∃ db, Run (invoke "UTC" sharedPurposes) Always .empty filing db ∧
        decide (db.call "UTC" sharedPurposes (.deleteCategory 1 3) [] = some (.violated, [])) =
          true := exists_run_of_execOk (by decide +kernel)
    exact hviolated db [] (h _ _ _ db hrun 1 3 [] _ _ (of_decide_eq_true hp))
  · intro h
    obtain ⟨db, hrun, hp⟩ : ∃ db, Run (invoke "UTC" sharedPurposes) Always .empty eightySix db ∧
        decide (db.call "UTC" sharedPurposes (.deleteItem 1 5) [] = some (.violated, [])) =
          true := exists_run_of_execOk (by decide +kernel)
    exact hviolated db [] (h _ _ _ db hrun 1 5 [] _ _ (of_decide_eq_true hp))

end Catalog
