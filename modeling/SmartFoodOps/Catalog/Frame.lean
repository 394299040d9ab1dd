/-
A mutation leaves the rows of every other restaurant.

* `Reachable`, `regular_of_reachable` — the committed tables, in any interleaving;
* `Db.Belongs`, `Db.rowsOf` — the rows of a restaurant, by their columns: a tag, a group
  and an option are of the restaurant whose item they describe;
* `belongs_iff` — these are the rows whose keys say so;
* `Commits.confined` — what a mutation may write of another restaurant;
* `tenancy_frame` — nothing, or the names of the branches of a brand.
-/
import SmartFoodOps.Catalog.Calls
import SmartFoodOps.Catalog.Commits
import Mathlib.Data.Set.Image

open Keyed Program Machine

namespace Catalog

variable {zone : String} {purposeOf : ℕ → Purpose} {db db' : Db} {ws : List Write} {w : Write}
  {o r : RestaurantId} {row : Row}

/-! ### The tables of every interleaving -/

section

variable {n : ℕ} {s u : System n} {e : Event n}

variable (purposeOf) in
/-- Each branch that it will have inserted comes with its metadata. -/
def Tx.Houses : Tx → Prop
  | idle | invalidating _ => True
  | editing p edits => Ensures (Drawn purposeOf) (Db.Typed purposeOf) (Write.Typed purposeOf) p
      (fun _ ws => Catalog.Houses ws) edits
  | publishing _ edits _ _ _ => Catalog.Houses edits

/-- Every branch has its metadata, and so will it after each commit. -/
def Settled (purposeOf : ℕ → Purpose) (s : System n) : Prop :=
  Housed s.db ∧ ∀ pid, (s.txs pid).Houses purposeOf

theorem settled_step (hs : Sound purposeOf s) (h : Settled purposeOf s)
    (hstep : step zone purposeOf s e = some u) : Settled purposeOf u := by
  obtain ⟨hdb, htxs⟩ := h
  cases step_cases zone purposeOf hstep with
  | start hidle =>
    refine ⟨hdb, forall_set htxs ?_⟩
    exact ((body_housing purposeOf zone _) [] fun _ hb => absurd hb List.not_mem_nil).mono
      fun _ _ hq => hq.2
  | ends => exact ⟨hdb, forall_set htxs trivial⟩
  | @publishes pid _ target edits htx =>
    have ht := htxs pid
    rw [htx] at ht
    exact ⟨hdb, forall_set htxs ht⟩
  | @edits pid _ p p' edits w facts htx ha =>
    have ht := htxs pid
    have htyped := hs.txs pid
    rw [htx] at ht htyped
    exact ⟨hdb, forall_set htxs (ht.advance (typed_applyWrites htyped.1 hs.typed) ha).2⟩
  | @stages pid _ target edits staged w p p' facts facts' htx ha =>
    have ht := htxs pid
    rw [htx] at ht
    exact ⟨hdb, forall_set htxs ht⟩
  | @commits pid _ target edits staged affected facts htx hvalid =>
    have ht := htxs pid
    have htyped := hs.txs pid
    rw [htx] at ht htyped
    obtain ⟨hedits, -, hstaged, hquiet⟩ := htyped
    refine ⟨hdb.apply (forall_append hedits hstaged) ?_, forall_set htxs trivial⟩
    exact ht.append (houses_of_not_founds fun w hw => (hquiet w hw).not_founds)
  | invalidates => exact ⟨hdb, forall_set htxs trivial⟩
  | getMenu => exact ⟨hdb, htxs⟩

/-- The committed tables of an interleaving of mutations. -/
def Reachable (zone : String) (purposeOf : ℕ → Purpose) (db : Db) : Prop :=
  ∃ (n : ℕ) (es : List (Event n)) (s : System n),
    Run (step zone purposeOf) Always .empty es s ∧ s.db = db

theorem regular_of_reachable (h : Reachable zone purposeOf db) : Regular purposeOf db := by
  obtain ⟨n, es, s, hrun, rfl⟩ := h
  have hsettled : Sound purposeOf s ∧ Settled purposeOf s := by
    refine hrun.invariant (I := fun s => Sound purposeOf s ∧ Settled purposeOf s) ?_ ?_
    · exact ⟨sound_empty, fun _ hb => absurd hb Table.not_mem_empty, fun _ => trivial⟩
    · exact fun _ _ _ hI _ hstep => ⟨sound_step hI.1 hstep, settled_step hI.1 hI.2 hstep⟩
  exact ⟨hsettled.1.typed, hsettled.1.valid, hsettled.2.1⟩

end

/-! ### The rows of a restaurant -/

namespace Db

/-- The row describes the restaurant or its menu. -/
def Belongs (db : Db) (o : RestaurantId) : Row → Prop
  | .restaurant r => r.id = o
  | .branchMetadata m => m.restaurantId = o
  | .restaurantCuisine r _ => r = o
  | .menuCategory c => c.restaurantId = o
  | .menuItem i => i.restaurantId = o
  | .itemTag i _ => ∃ x, Row.menuItem x ∈ db ∧ x.id = i ∧ x.restaurantId = o
  | .modifierGroup g => ∃ x, Row.menuItem x ∈ db ∧ x.id = g.itemId ∧ x.restaurantId = o
  | .modifierOption p => ∃ g x, Row.modifierGroup g ∈ db ∧ g.id = p.groupId ∧
      Row.menuItem x ∈ db ∧ x.id = g.itemId ∧ x.restaurantId = o
  | .branchItemOverride b _ => b = o
  | .outbox _ => False

def rowsOf (db : Db) (o : RestaurantId) : Set Row := {row | row ∈ db ∧ db.Belongs o row}

/-- `o` is a branch of `r`. -/
def IsBranch (db : Db) (o r : RestaurantId) : Prop :=
  ∃ m, Row.branchMetadata m ∈ db ∧ m.restaurantId = o ∧ m.brandId = r

end Db

/-- What a row refers to is there. -/
theorem reference_there (hdb : Regular purposeOf db) (hrow : row ∈ db) {k : Key}
    (hk : k ∈ row.references) : ∃ x ∈ db, x.key = k := by
  obtain ⟨x, hx⟩ := Option.ne_none_iff_exists'.mp (hdb.valid.foreign row hrow k hk)
  exact ⟨x, Table.find_eq_some.mp hx⟩

section

variable (hdb : Regular purposeOf db)

include hdb

theorem item_there {i : ItemId} (hrow : row ∈ db) (hk : .menuItem i ∈ row.references) :
    ∃ x, Row.menuItem x ∈ db ∧ x.id = i ∧ itemOwner purposeOf i = some x.restaurantId := by
  obtain ⟨x, hx, hkey⟩ := reference_there hdb hrow hk
  cases x with
  | menuItem x =>
    obtain rfl := Key.menuItem.inj hkey
    exact ⟨x, hx, rfl, owner_item (hdb.typed _ hx).1⟩
  | _ => cases hkey

theorem group_there {g : GroupId} (hrow : row ∈ db) (hk : .modifierGroup g ∈ row.references) :
    ∃ x, Row.modifierGroup x ∈ db ∧ x.id = g ∧ purposeOf g = .group x.itemId := by
  obtain ⟨x, hx, hkey⟩ := reference_there hdb hrow hk
  cases x with
  | modifierGroup x =>
    obtain rfl := Key.modifierGroup.inj hkey
    exact ⟨x, hx, rfl, hdb.typed _ hx⟩
  | _ => cases hkey

/-- The item that a tag or a group describes is the restaurant's if the item's key says so. -/
theorem item_belongs {i : ItemId} (hrow : row ∈ db) (hk : .menuItem i ∈ row.references) :
    (∃ x, Row.menuItem x ∈ db ∧ x.id = i ∧ x.restaurantId = o) ↔ itemOwner purposeOf i = some o := by
  constructor
  · rintro ⟨x, hx, rfl, rfl⟩
    exact owner_item (hdb.typed _ hx).1
  · intro ho
    obtain ⟨x, hx, hid, hown⟩ := item_there hdb hrow hk
    exact ⟨x, hx, hid, Option.some.inj (hown.symm.trans ho)⟩

/-- **The columns of a row say the same as its key.** -/
theorem belongs_iff (hrow : row ∈ db) : db.Belongs o row ↔ row.key.owner purposeOf = some o := by
  cases row with
  | restaurant | branchMetadata | restaurantCuisine | branchItemOverride => exact Option.some_inj.symm
  | menuCategory c =>
    have ht : purposeOf c.id = .category c.restaurantId := hdb.typed _ hrow
    simp [Db.Belongs, Row.key, Key.owner, ht]
  | menuItem i =>
    have ht : itemOwner purposeOf i.id = some i.restaurantId := owner_item (hdb.typed _ hrow).1
    simp [Db.Belongs, Row.key, Key.owner, ht]
  | itemTag i t => exact item_belongs hdb hrow (List.mem_singleton_self _)
  | modifierGroup g =>
    have ht : purposeOf g.id = .group g.itemId := hdb.typed _ hrow
    have howner : groupOwner purposeOf g.id = itemOwner purposeOf g.itemId := by
      rw [groupOwner, ht]
    show _ ↔ groupOwner purposeOf g.id = some o
    rw [howner]
    exact item_belongs hdb hrow (List.mem_singleton_self _)
  | modifierOption p =>
    have ht : purposeOf p.id = .option p.groupId := hdb.typed _ hrow
    obtain ⟨g, hg, hgid, hgp⟩ := group_there hdb hrow (List.mem_singleton_self _)
    have howner : Key.owner purposeOf (.modifierOption p.id) = itemOwner purposeOf g.itemId := by
      simp [Key.owner, ht, groupOwner, hgp]
    show _ ↔ Key.owner purposeOf (.modifierOption p.id) = some o
    rw [howner, ← item_belongs hdb hg (List.mem_singleton_self _)]
    constructor
    · rintro ⟨g', x, hg', hgid', hx⟩
      have hsame : Row.modifierGroup g' = .modifierGroup g :=
        Table.eq_of_key hg' hg (congrArg Key.modifierGroup (hgid'.trans hgid.symm))
      cases hsame
      exact ⟨x, hx⟩
    · rintro ⟨x, hx⟩
      exact ⟨g, x, hg, hgid, hx⟩
  | outbox e => exact (iff_of_false id (by rintro ⟨⟩))

theorem mem_rowsOf : row ∈ db.rowsOf o ↔ row ∈ db ∧ row.key.owner purposeOf = some o :=
  and_congr_right fun hrow => belongs_iff hdb hrow

/-- A branch names its brand, which is there. -/
theorem branch_there {x : RestaurantRow} (hx : .restaurant x ∈ db)
    (hp : purposeOf x.id = .branch r) : db.IsBranch x.id r ∧ ∃ y ∈ db, y.key = .restaurant r := by
  have hkind : x.kind = .branch := by
    have ht : Row.Typed purposeOf (.restaurant x) := hdb.typed _ hx
    cases hk : x.kind with
    | brand =>
      simp only [Row.Typed, hk, hp] at ht
      cases ht
    | branch => rfl
  obtain ⟨m, hm, hid⟩ := hdb.housed x hx hkind
  have hm' : purposeOf m.restaurantId = .branch m.brandId := (hdb.typed _ hm).1
  have hbrand : m.brandId = r := by
    rw [hid, hp] at hm'
    exact (Purpose.branch.inj hm').symm
  refine ⟨⟨m, hm, hid, hbrand⟩, ?_⟩
  rw [← hbrand]
  exact reference_there hdb hm (List.mem_cons_of_mem _ (List.mem_singleton_self _))

end

/-! ### What a mutation writes of another restaurant -/

/-- A change of the restaurant's name, or of nothing that anybody reads. -/
def Write.Renames (o : RestaurantId) (w : Write) : Prop :=
  w = .update (.restaurant o) .touch ∨ ∃ name, w = .update (.restaurant o) (.name name)

section

variable {call : Call} {target : Target} {edits staged : List Write}
  {affected : List RestaurantId} {x : RestaurantRow}
  (h : Commits zone purposeOf db call target edits staged affected) (hdb : Regular purposeOf db)

include h hdb

/-- A mutation edits the restaurant that it is called with, or a new one. -/
theorem Commits.target_cases :
    (call.restaurant = some target.restaurant ∧
        ∀ w ∈ edits, w.Edits purposeOf target.restaurant) ∨
      (db.find (.restaurant target.restaurant) = none ∧
        ∀ w ∈ edits, w.Local purposeOf target.restaurant) := by
  have hlocal : ∀ w ∈ edits, w.Local purposeOf target.restaurant :=
    (((body_local zone call).outcome (fun _ _ hw hI => hw.apply hI) hdb.typed h.body) target rfl).2
  cases hcall : call.identity with
  | false =>
    obtain ⟨r, hr, hplain⟩ := body_plain purposeOf zone hcall
    obtain ⟨rfl, hedits⟩ := h.edits_of hdb.typed hplain
    exact .inl ⟨hr, fun w hw => .own (hedits w hw).own⟩
  | true =>
    cases call with
    | createRestaurant owner name place cuisines timezone label =>
      obtain ⟨brand, b, m, db₁, -, hnew, -, -, -, ht, -⟩ := alone_createRestaurant h.body
      rw [ht] at hlocal ⊢
      exact .inr ⟨hnew, hlocal⟩
    | updateRestaurant id c cuisines =>
      obtain ⟨rfl, hedits⟩ := h.edits_of hdb.typed (announces_updateRestaurant id c cuisines)
      exact .inl ⟨rfl, hedits⟩
    | createBranch brandId label place timezone =>
      obtain ⟨brand, b, m, -, -, -, hnew, ht, -⟩ := alone_createBranch h.body
      rw [ht] at hlocal ⊢
      exact .inr ⟨hnew.fresh, hlocal⟩
    | _ => cases hcall

/-- **Of another restaurant that is there, a mutation writes the name at most, and that of a
branch of its own.** -/
theorem Commits.confined (hx : .restaurant x ∈ db) (hne : call.restaurant ≠ some x.id)
    (hw : w ∈ edits ++ staged) (ho : w.key.owner purposeOf = some x.id) :
    (∃ R, call.restaurant = some R ∧ purposeOf x.id = .branch R) ∧ w.Renames x.id := by
  rcases h.target_cases hdb with ⟨hr, hedits⟩ | ⟨hnew, hedits⟩
  · rw [hr] at hne ⊢
    have hne : target.restaurant ≠ x.id := fun he => hne (congrArg some he)
    rcases List.mem_append.mp hw with hw | hw
    · cases hedits w hw with
      | own hown => exact absurd (Option.some.inj (hown.1.symm.trans ho)) hne
      | branchName hp =>
        obtain rfl := Option.some.inj ho
        exact ⟨⟨_, rfl, hp⟩, .inr ⟨_, rfl⟩⟩
    · cases h.tells hdb.typed w hw with
      | touch hp =>
        obtain rfl := Option.some.inj ho
        exact ⟨⟨_, rfl, hp.resolve_left hne.symm⟩, .inl rfl⟩
      | event => cases ho
  · -- nobody's row is one of a new restaurant, or of a branch of it
    have hself : x.id ≠ target.restaurant := by
      intro he
      exact Table.find_eq_none.mp hnew _ hx (congrArg Key.restaurant he)
    have hbranch : purposeOf x.id ≠ .branch target.restaurant := by
      intro hp
      obtain ⟨y, hy, hk⟩ := (branch_there hdb hx hp).2
      exact Table.find_eq_none.mp hnew y hy hk
    rcases List.mem_append.mp hw with hw | hw
    · obtain ⟨o, ho', hp⟩ := hedits w hw
      obtain rfl := Option.some.inj (ho'.symm.trans ho)
      exact absurd hp (not_or.mpr ⟨hself, hbranch⟩)
    · cases h.tells hdb.typed w hw with
      | touch hp =>
        obtain rfl := Option.some.inj ho
        exact absurd hp (not_or.mpr ⟨hself, hbranch⟩)
      | event => cases ho

end

/-! ### The rows of another restaurant -/

/-- The restaurant has the same rows as before, or the same but for its name. -/
def SameRows (purposeOf : ℕ → Purpose) (o : RestaurantId) (db db' : Db) : Prop :=
  Agree purposeOf db' db o ∨ ∃ name, ∀ row : Row, row.key.owner purposeOf = some o →
    (row ∈ db' ↔ ∃ x ∈ db, row = x.patch (.name name))

/-- A name changes the row of the restaurant, and none of its other rows. -/
theorem mem_rename {name : String} (ho : row.key.owner purposeOf = some o) :
    row ∈ (Write.update (.restaurant o) (.name name)).apply db ↔
      ∃ x ∈ db, row = x.patch (.name name) := by
  have hother : ∀ x : Row, x.key.owner purposeOf = some o → x.key ≠ .restaurant o →
      x.patch (.name name) = x := by
    intro x hx hk
    cases x with
    | restaurant y => exact absurd (congrArg Key.restaurant (Option.some.inj hx)) hk
    | _ => rfl
  rw [mem_update]
  constructor
  · rintro (⟨hmem, hk⟩ | ⟨x, hx, -, hrow⟩)
    · exact ⟨row, hmem, (hother row ho hk).symm⟩
    · exact ⟨x, hx, hrow⟩
  · rintro ⟨x, hx, rfl⟩
    rw [Row.key_patch] at ho
    by_cases hk : x.key = .restaurant o
    · exact .inr ⟨x, hx, hk, rfl⟩
    · refine .inl ⟨?_, by rwa [Row.key_patch]⟩
      rwa [hother x ho hk]

theorem sameRows_apply (hw : w.key.owner purposeOf = some o → w.Renames o)
    (h : SameRows purposeOf o db db') : SameRows purposeOf o db (w.apply db') := by
  by_cases ho : w.key.owner purposeOf = some o
  · rcases hw ho with rfl | ⟨name, rfl⟩
    · have hmem : ∀ row : Row, row.key.owner purposeOf = some o →
          (row ∈ (Write.update (.restaurant o) .touch).apply db' ↔ row ∈ db') := by
        intro row hrow
        have hquiet : (Write.update (.restaurant o) .touch).Quiet := trivial
        refine hquiet.mem ?_
        rintro e rfl
        cases hrow
      refine h.imp ?_ ?_
      · exact fun hagree row hrow => (hmem row hrow).trans (hagree row hrow)
      · rintro ⟨name, hname⟩
        exact ⟨name, fun row hrow => (hmem row hrow).trans (hname row hrow)⟩
    · refine .inr ⟨name, fun row hrow => (mem_rename hrow).trans ?_⟩
      rcases h with hagree | ⟨name', hname⟩
      · refine exists_congr fun x => and_congr_left fun hx => hagree x ?_
        rwa [hx, Row.key_patch] at hrow
      · -- the last name counts
        have htwice : ∀ y : Row, (y.patch (.name name')).patch (.name name) = y.patch (.name name) :=
          fun y => by cases y <;> rfl
        constructor
        · rintro ⟨x, hx, rfl⟩
          rw [Row.key_patch] at hrow
          obtain ⟨y, hy, rfl⟩ := (hname x hrow).mp hx
          exact ⟨y, hy, htwice y⟩
        · rintro ⟨y, hy, rfl⟩
          rw [Row.key_patch] at hrow
          refine ⟨y.patch (.name name'), (hname _ ?_).mpr ⟨y, hy, rfl⟩, (htwice y).symm⟩
          rwa [Row.key_patch]
  · have hmem : ∀ row : Row, row.key.owner purposeOf = some o →
        (row ∈ w.apply db' ↔ row ∈ db') := by
      intro row hrow
      exact mem_apply_of_ne fun hk => ho (by rwa [hk] at hrow)
    refine h.imp ?_ ?_
    · exact fun hagree row hrow => (hmem row hrow).trans (hagree row hrow)
    · rintro ⟨name, hname⟩
      exact ⟨name, fun row hrow => (hmem row hrow).trans (hname row hrow)⟩

theorem sameRows_applyWrites (hws : ∀ w ∈ ws, w.key.owner purposeOf = some o → w.Renames o) :
    SameRows purposeOf o db (applyWrites ws db) :=
  applyAll_induction (I := SameRows purposeOf o db)
    (W := fun w : Write => w.key.owner purposeOf = some o → w.Renames o)
    (fun _ _ hw hI => sameRows_apply hw hI) hws (.inl fun _ _ => Iff.rfl)

theorem rowsOf_of_agree (hdb : Regular purposeOf db) (hdb' : Regular purposeOf db')
    (h : Agree purposeOf db' db o) : db'.rowsOf o = db.rowsOf o := by
  ext row
  rw [mem_rowsOf hdb, mem_rowsOf hdb']
  exact and_congr_left fun ho => h row ho

theorem rowsOf_of_sameRows (hdb : Regular purposeOf db) (hdb' : Regular purposeOf db')
    (h : SameRows purposeOf o db db') :
    db'.rowsOf o = db.rowsOf o ∨ ∃ name, db'.rowsOf o = Row.patch (.name name) '' db.rowsOf o := by
  refine h.imp (rowsOf_of_agree hdb hdb') ?_
  rintro ⟨name, hname⟩
  refine ⟨name, Set.ext fun row => ?_⟩
  rw [mem_rowsOf hdb']
  constructor
  · rintro ⟨hmem, ho⟩
    obtain ⟨x, hx, rfl⟩ := (hname row ho).mp hmem
    rw [Row.key_patch] at ho
    exact ⟨x, (mem_rowsOf hdb).mpr ⟨hx, ho⟩, rfl⟩
  · rintro ⟨x, hx, rfl⟩
    obtain ⟨hmem, ho⟩ := (mem_rowsOf hdb).mp hx
    have ho' : (x.patch (.name name)).key.owner purposeOf = some o := by rwa [Row.key_patch]
    exact ⟨(hname _ ho').mpr ⟨x, hmem, rfl⟩, ho'⟩

section

variable {call : Call} {draws : List ℕ} {ans : Answer} {x : RestaurantRow}

/-- **A mutation leaves every row of every other restaurant, and writes none of them, but for
the name and the `updated_at` of a branch of the brand that it is called with.** -/
theorem tenancy_frame (h : Reachable zone purposeOf db)
    (hcall : db.call zone purposeOf call draws = some (ans, ws)) (hx : .restaurant x ∈ db)
    (hne : call.restaurant ≠ some x.id) :
    ((∀ R ∈ call.restaurant, ¬ db.IsBranch x.id R) →
      (applyWrites ws db).rowsOf x.id = db.rowsOf x.id ∧
        ∀ w ∈ ws, ∀ row ∈ db.rowsOf x.id, w.key ≠ row.key) ∧
      ((applyWrites ws db).rowsOf x.id = db.rowsOf x.id ∨
        ∃ name, (applyWrites ws db).rowsOf x.id = Row.patch (.name name) '' db.rowsOf x.id) ∧
        ∀ w ∈ ws, ∀ row ∈ db.rowsOf x.id, w.key = row.key → w.Renames x.id := by
  have hdb := regular_of_reachable h
  have hdb' : Regular purposeOf (applyWrites ws db) := by
    have hinvoke : invoke zone purposeOf db (call, draws) = some (applyWrites ws db) := by
      simp [invoke, hcall]
    exact hdb.invoke hinvoke
  have hconfined : ∀ w ∈ ws, w.key.owner purposeOf = some x.id →
      (∃ R, call.restaurant = some R ∧ purposeOf x.id = .branch R) ∧ w.Renames x.id := by
    intro w hw ho
    rcases call_cases hcall with rfl | ⟨target, edits, staged, affected, -, rfl, hc⟩
    · cases hw
    · exact hc.confined hdb hx hne hw ho
  refine ⟨fun hbranch => ?_, ?_, fun w hw row hrow hk => ?_⟩
  · have hnone : ∀ w ∈ ws, w.key.owner purposeOf ≠ some x.id := by
      intro w hw ho
      obtain ⟨⟨R, hR, hp⟩, -⟩ := hconfined w hw ho
      exact hbranch R hR (branch_there hdb hx hp).1
    refine ⟨rowsOf_of_agree hdb hdb' fun row ho => ?_, fun w hw row hrow hk => ?_⟩
    · refine mem_applyWrites fun w hw db => mem_apply_of_ne fun hk => ?_
      rw [hk] at ho
      exact hnone w hw ho
    · rw [mem_rowsOf hdb, ← hk] at hrow
      exact hnone w hw hrow.2
  · exact rowsOf_of_sameRows hdb hdb' (sameRows_applyWrites fun w hw ho => (hconfined w hw ho).2)
  · rw [mem_rowsOf hdb, ← hk] at hrow
    exact (hconfined w hw hrow.2).2

/-- Branch 2 is paused, and every row of its brand stays. -/
theorem tenancy_frame_of_pausing : ∃ (s : System 1) (ws : List Write),
    Run (step "UTC" demoPurposes) Always .empty (creation 0) s ∧
      s.db.call "UTC" demoPurposes (.setStatus 2 .paused) [0, 12] = some (.answered, ws) ∧
        ws ≠ [] ∧ (applyWrites ws s.db).rowsOf 1 = s.db.rowsOf 1 := by
  obtain ⟨s, hrun, hp⟩ : ∃ s : System 1, Run (step "UTC" demoPurposes) Always .empty
      (creation 0) s ∧ decide ((Row.restaurant (RestaurantRow.mk 1 "owner" "Diner" .brand) ∈ s.db) ∧
        (s.db.call "UTC" demoPurposes (.setStatus 2 .paused) [0, 12]).map
          (fun p => (p.1, decide (p.2 = []))) = some (Answer.answered, false)) = true :=
    exists_run_of_execOk (by decide +kernel)
  obtain ⟨hx, hcall⟩ := of_decide_eq_true hp
  obtain ⟨⟨ans, ws⟩, hws, he⟩ := Option.map_eq_some_iff.mp hcall
  obtain ⟨rfl, hne⟩ := Prod.mk.inj he
  have hreach : Reachable "UTC" demoPurposes s.db := ⟨1, _, s, hrun, rfl⟩
  refine ⟨s, ws, hrun, hws, of_decide_eq_false hne, ?_⟩
  refine (((tenancy_frame hreach hws hx (by decide)).1 ?_)).1
  -- nobody is a branch of a branch
  rintro R hR ⟨m, hm, hid, -⟩
  have hm' : demoPurposes m.restaurantId = .branch m.brandId :=
    ((regular_of_reachable hreach).typed _ hm).1
  rw [hid] at hm'
  cases hm'

end

end Catalog
