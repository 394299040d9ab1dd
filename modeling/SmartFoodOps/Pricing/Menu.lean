/-
What restaurants put on their menus, and what customers may put into a cart.

* `ModifierOptionIn`, `ModifierGroupIn`, `ItemIn`, `ItemUpdate` — the bodies of catalog's item
  routes, with what is checked of the fields that pricing reads;
* `groupRows` — the groups as they are inserted, and read back by rank;
* `Stocked` — the items that such bodies lead to;
* `Item.Regular`, `Stocked.regular` — what all of them have in common;
* `PlaceOrderIn` — the part of a placement that is priced.
-/
import SmartFoodOps.Pricing.Report

namespace Pricing

/-! ### The bodies -/

structure ModifierOptionIn where
  name : String
  priceDeltaCents : ℤ := 0
  rank : ℕ := 0
  bounded : (1 ≤ name.length ∧ name.length ≤ 80) ∧
    -100000 ≤ priceDeltaCents ∧ priceDeltaCents ≤ 100000

structure ModifierGroupIn where
  name : String
  minSelect : ℕ := 0
  maxSelect : ℕ := 1
  rank : ℕ := 0
  options : List ModifierOptionIn
  bounded : (1 ≤ name.length ∧ name.length ≤ 80) ∧ 1 ≤ maxSelect ∧
    1 ≤ options.length ∧ options.length ≤ 20
  /-- An unsatisfiable group would make its item unorderable at pricing. -/
  satisfiable : minSelect ≤ maxSelect ∧ minSelect ≤ options.length

/-- The pattern `^[A-Z]{3}$`. -/
def IsCurrency (s : String) : Prop := s.length = 3 ∧ ∀ c ∈ s.toList, 'A' ≤ c ∧ c ≤ 'Z'

instance (s : String) : Decidable (IsCurrency s) :=
  @instDecidableAnd _ _ _ (List.decidableBAll (fun c : Char => 'A' ≤ c ∧ c ≤ 'Z') s.toList)

structure ItemIn where
  name : String
  priceCents : ℕ
  currency : String := "USD"
  available : Bool := true
  modifierGroups : List ModifierGroupIn := []
  bounded : (1 ≤ name.length ∧ name.length ≤ 120) ∧ priceCents ≤ 10000000 ∧
    IsCurrency currency ∧ modifierGroups.length ≤ 10

/-- An omitted field is untouched; groups that are sent replace the whole set. -/
structure ItemUpdate where
  name : Option String := none
  priceCents : Option ℕ := none
  currency : Option String := none
  available : Option Bool := none
  modifierGroups : Option (List ModifierGroupIn) := none
  bounded : (∀ n ∈ name, 1 ≤ n.length ∧ n.length ≤ 120) ∧ (∀ p ∈ priceCents, p ≤ 10000000) ∧
    (∀ c ∈ currency, IsCurrency c) ∧ ∀ l ∈ modifierGroups, l.length ≤ 10

/-! ### What is stored -/

/-- `rank, id`. -/
def Ranks {α : Type} (id : α → String) (a b : ℕ × α) : Prop :=
  a.1 < b.1 ∨ a.1 = b.1 ∧ id a.2 ≤ id b.2

instance {α : Type} (id : α → String) : DecidableRel (Ranks id) :=
  fun _ _ => inferInstanceAs (Decidable (_ ∨ _))

/-- `ORDER BY rank, id`. -/
def byRank {α : Type} (id : α → String) (rows : List (ℕ × α)) : List α :=
  (rows.insertionSort (Ranks id)).map Prod.snd

theorem perm_byRank {α : Type} {id : α → String} {rows : List (ℕ × α)} :
    (byRank id rows).Perm (rows.map Prod.snd) := (List.perm_insertionSort _ _).map _

/-- The identifiers that are drawn for the groups of an item and their options. -/
structure Drawn (groups : List ModifierGroupIn) where
  ids : List (String × List String)
  options : List.Forall₂ (fun group (draw : String × List String) =>
    draw.2.length = group.options.length ∧ draw.2.Nodup ∧ ∀ id ∈ draw.2, Short id) groups ids
  nodup : (ids.map Prod.fst).Nodup
  short : ∀ draw ∈ ids, Short draw.1

def ModifierOptionIn.row (option : ModifierOptionIn) (id : String) : ℕ × ModifierOption :=
  (option.rank, ⟨id, option.name, option.priceDeltaCents⟩)

def ModifierGroupIn.row (group : ModifierGroupIn) (draw : String × List String) :
    ℕ × ModifierGroup :=
  (group.rank,
    { id := draw.1
      name := group.name
      minSelect := group.minSelect
      maxSelect := group.maxSelect
      options := byRank ModifierOption.id
        (List.zipWith ModifierOptionIn.row group.options draw.2) })

/-- `insert_modifier_groups`, and then the pricing read. -/
def groupRows (groups : List ModifierGroupIn) (drawn : Drawn groups) : List ModifierGroup :=
  byRank ModifierGroup.id (List.zipWith ModifierGroupIn.row groups drawn.ids)

def ItemIn.stored (body : ItemIn) (id : String) (drawn : Drawn body.modifierGroups) : Item where
  id := id
  name := body.name
  priceCents := body.priceCents
  currency := body.currency
  available := body.available
  modifierGroups := groupRows body.modifierGroups drawn

/-- The fields that are sent. -/
def ItemUpdate.changed (body : ItemUpdate) (item : Item) : Item where
  id := item.id
  name := body.name.getD item.name
  priceCents := (body.priceCents.map Nat.cast).getD item.priceCents
  currency := body.currency.getD item.currency
  available := body.available.getD item.available
  modifierGroups := item.modifierGroups

/-- The items that the bodies lead to. -/
inductive Stocked : Item → Prop
  | added (body : ItemIn) (drawn : Drawn body.modifierGroups) {id : String} (short : Short id) :
    Stocked (body.stored id drawn)
  | updated {item : Item} (body : ItemUpdate) (stocked : Stocked item)
    (kept : body.modifierGroups = none) : Stocked (body.changed item)
  | replaced {item : Item} (body : ItemUpdate) (stocked : Stocked item)
    {groups : List ModifierGroupIn} (sent : body.modifierGroups = some groups)
    (drawn : Drawn groups) :
    Stocked { body.changed item with modifierGroups := groupRows groups drawn }

/-! ### What they have in common -/

/-- A group that can be satisfied, with identifiers that a selection can name. -/
structure ModifierGroup.Regular (group : ModifierGroup) : Prop where
  options : (group.options.map ModifierOption.id).Nodup
  short : Short group.id ∧ ∀ option ∈ group.options, Short option.id
  minimum : 0 ≤ group.minSelect ∧ group.minSelect ≤ group.maxSelect
  enough : group.minSelect ≤ group.options.length
  deltas : ∀ option ∈ group.options,
    -100000 ≤ option.priceDeltaCents ∧ option.priceDeltaCents ≤ 100000

structure Item.Regular (item : Item) : Prop where
  short : Short item.id
  price : 0 ≤ item.priceCents ∧ item.priceCents ≤ 10000000
  currency : IsCurrency item.currency
  groups : (item.modifierGroups.map ModifierGroup.id).Nodup
  group : ∀ group ∈ item.modifierGroups, group.Regular

theorem Item.Regular.unique {item : Item} (h : item.Regular) : item.Unique :=
  ⟨h.groups, fun group hgroup => (h.group group hgroup).options⟩

/-- An insertion keeps the rows of each body with its draw. -/
theorem forall₂_zipWith {α β γ : Type*} {R : α → β → Prop} {P : γ → Prop} {f : α → β → γ}
    {l : List α} {l' : List β} (h : List.Forall₂ R l l') (hf : ∀ a b, b ∈ l' → R a b → P (f a b)) :
    ∀ c ∈ List.zipWith f l l', P c := by
  induction h with
  | nil => simp
  | cons hab _ ih =>
    rw [List.zipWith_cons_cons]
    refine List.forall_mem_cons.mpr ⟨hf _ _ List.mem_cons_self hab, ih fun a b hb => ?_⟩
    exact hf a b (List.mem_cons_of_mem _ hb)

theorem map_zipWith_right {α β γ δ : Type*} {f : α → β → γ} {g : γ → δ} {k : β → δ}
    (hg : ∀ a b, g (f a b) = k b) {l : List α} {l' : List β} (h : l'.length = l.length) :
    (List.zipWith f l l').map g = l'.map k := by
  induction l generalizing l' with
  | nil => rw [List.length_eq_zero_iff.mp h]; rfl
  | cons a l ih =>
    rcases l' with _ | ⟨b, l'⟩
    · cases h
    · rw [List.zipWith_cons_cons, List.map_cons, List.map_cons, hg, ih (Nat.succ.inj h)]

/-- **A group is stored as it can be satisfied.** -/
theorem ModifierGroupIn.row_regular (group : ModifierGroupIn) {draw : String × List String}
    (hshort : Short draw.1) (hlength : draw.2.length = group.options.length)
    (hnodup : draw.2.Nodup) (hshorts : ∀ id ∈ draw.2, Short id) :
    (group.row draw).2.Regular := by
  have hids : ((List.zipWith ModifierOptionIn.row group.options draw.2).map Prod.snd).map
      ModifierOption.id = draw.2 := by
    rw [List.map_map, map_zipWith_right (f := ModifierOptionIn.row)
      (g := ModifierOption.id ∘ Prod.snd) (k := id) (fun _ _ => rfl) hlength, List.map_id]
  have hperm : ((group.row draw).2.options.map ModifierOption.id).Perm draw.2 := by
    rw [← hids]
    exact perm_byRank.map _
  have hrows : ∀ row ∈ List.zipWith ModifierOptionIn.row group.options draw.2,
      -100000 ≤ row.2.priceDeltaCents ∧ row.2.priceDeltaCents ≤ 100000 := by
    intro row hrow
    obtain ⟨i, hi, rfl⟩ := List.mem_iff_getElem.mp hrow
    rw [List.getElem_zipWith]
    exact (ModifierOptionIn.bounded _).2
  constructor
  · exact hperm.nodup_iff.mpr hnodup
  · exact ⟨hshort, fun option hoption => hshorts _ (hperm.mem_iff.mp (List.mem_map_of_mem hoption))⟩
  · exact ⟨Int.natCast_nonneg _, Int.ofNat_le.mpr group.satisfiable.1⟩
  · have hlen := hperm.length_eq
    rw [List.length_map, hlength] at hlen
    rw [hlen]
    exact Int.ofNat_le.mpr group.satisfiable.2
  · intro option hoption
    obtain ⟨row, hrow, rfl⟩ := List.mem_map.mp (perm_byRank.mem_iff.mp hoption)
    exact hrows row hrow

/-- The groups of a body, as they are stored. -/
theorem groupRows_regular {groups : List ModifierGroupIn} (drawn : Drawn groups) :
    ((groupRows groups drawn).map ModifierGroup.id).Nodup ∧
      ∀ group ∈ groupRows groups drawn, group.Regular := by
  have hids : ((List.zipWith ModifierGroupIn.row groups drawn.ids).map Prod.snd).map
      ModifierGroup.id = drawn.ids.map Prod.fst := by
    rw [List.map_map]
    exact map_zipWith_right (f := ModifierGroupIn.row) (g := ModifierGroup.id ∘ Prod.snd)
      (k := Prod.fst) (fun _ _ => rfl) drawn.options.length_eq.symm
  have hrows : ∀ row ∈ List.zipWith ModifierGroupIn.row groups drawn.ids, row.2.Regular :=
    forall₂_zipWith (P := fun row : ℕ × ModifierGroup => row.2.Regular) drawn.options
      fun group draw hdraw h => group.row_regular (drawn.short draw hdraw) h.1 h.2.1 h.2.2
  constructor
  · have hperm : ((groupRows groups drawn).map ModifierGroup.id).Perm (drawn.ids.map Prod.fst) := by
      rw [← hids]
      exact perm_byRank.map _
    exact hperm.nodup_iff.mpr drawn.nodup
  · intro group hgroup
    obtain ⟨row, hrow, rfl⟩ := List.mem_map.mp (perm_byRank.mem_iff.mp hgroup)
    exact hrows row hrow

theorem ItemUpdate.changed_price (body : ItemUpdate) {item : Item}
    (h : 0 ≤ item.priceCents ∧ item.priceCents ≤ 10000000) :
    0 ≤ (body.changed item).priceCents ∧ (body.changed item).priceCents ≤ 10000000 := by
  have hbody := body.bounded.2.1
  unfold ItemUpdate.changed
  dsimp only
  rcases hp : body.priceCents with _ | p
  · exact h
  · exact ⟨Int.natCast_nonneg p, Int.ofNat_le.mpr (hbody p hp)⟩

theorem ItemUpdate.changed_currency (body : ItemUpdate) {item : Item}
    (h : IsCurrency item.currency) : IsCurrency (body.changed item).currency := by
  have hbody := body.bounded.2.2.1
  unfold ItemUpdate.changed
  dsimp only
  rcases hc : body.currency with _ | c
  · exact h
  · exact hbody c hc

/-- **Whatever is on a menu was checked when it was put there.** -/
theorem Stocked.regular {item : Item} (h : Stocked item) : item.Regular := by
  induction h with
  | added body drawn short =>
    obtain ⟨hnodup, hgroup⟩ := groupRows_regular drawn
    exact ⟨short, ⟨Int.natCast_nonneg _, Int.ofNat_le.mpr body.bounded.2.1⟩, body.bounded.2.2.1,
      hnodup, hgroup⟩
  | @updated item body _ _ ih =>
    exact ⟨ih.short, body.changed_price ih.price, body.changed_currency ih.currency, ih.groups,
      ih.group⟩
  | @replaced item body _ groups _ drawn ih =>
    obtain ⟨hnodup, hgroup⟩ := groupRows_regular drawn
    exact ⟨ih.short, body.changed_price ih.price, body.changed_currency ih.currency, hnodup, hgroup⟩

/-- The rows are as many as the bodies. -/
theorem length_groupRows {groups : List ModifierGroupIn} (drawn : Drawn groups) :
    (groupRows groups drawn).length = groups.length := by
  have hperm := (@perm_byRank _ ModifierGroup.id
    (List.zipWith ModifierGroupIn.row groups drawn.ids)).length_eq
  rw [List.length_map, List.length_zipWith, ← drawn.options.length_eq, min_self] at hperm
  exact hperm

theorem length_options_le {groups : List ModifierGroupIn} (drawn : Drawn groups) :
    ∀ group ∈ groupRows groups drawn, group.options.length ≤ 20 := by
  have hrows : ∀ row ∈ List.zipWith ModifierGroupIn.row groups drawn.ids,
      row.2.options.length ≤ 20 := by
    refine forall₂_zipWith (P := fun row : ℕ × ModifierGroup => row.2.options.length ≤ 20)
      drawn.options fun group draw _ _ => ?_
    have hperm := (@perm_byRank _ ModifierOption.id
      (List.zipWith ModifierOptionIn.row group.options draw.2)).length_eq
    rw [List.length_map, List.length_zipWith] at hperm
    have hbody := group.bounded.2.2.2
    show (byRank _ _).length ≤ 20
    omega
  intro group hgroup
  obtain ⟨row, hrow, rfl⟩ := List.mem_map.mp (perm_byRank.mem_iff.mp hgroup)
  exact hrows row hrow

/-- **A menu is no longer than its bodies may be.** -/
theorem Stocked.length_le {item : Item} (h : Stocked item) : item.modifierGroups.length ≤ 10 ∧
    ∀ group ∈ item.modifierGroups, group.options.length ≤ 20 := by
  induction h with
  | added body drawn _ =>
    exact ⟨(length_groupRows drawn).trans_le body.bounded.2.2.2, length_options_le drawn⟩
  | updated _ _ _ ih => exact ih
  | @replaced _ body _ groups sent drawn _ =>
    exact ⟨(length_groupRows drawn).trans_le (body.bounded.2.2.2 groups sent),
      length_options_le drawn⟩

/-! ### A placement -/

/-- What is priced of a placement; the total is the one that the customer was shown. -/
structure PlaceOrderIn where
  lines : List Line
  expectedTotalCents : ℕ
  bounded : 1 ≤ lines.length ∧ lines.length ≤ 50

/-- The snapshot is of such a menu. -/
def Snapshot.Served (snapshot : Snapshot) : Prop := ∀ item ∈ snapshot.items, Stocked item

end Pricing
