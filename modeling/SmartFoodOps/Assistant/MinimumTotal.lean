/-
The least that a dish costs, as the assistant works it out and as it is priced.

* `Item.dish` — what the assistant sees of an item of the menu;
* `lineTotals` — what lines of one such dish cost, of those that are priced;
* `unitWithOptions_eq` — the price of a choice, group by group;
* `minimumTotal_eq` — `minimum_total` takes the cheapest options of each group, and no others;
* `exact_iff` — it is the least price exactly if the minimums of the groups fit into a line, and
  nobody can save money by taking more than the minimums.
-/
import SmartFoodOps.Lib.Cheapest
import SmartFoodOps.Assistant.Cards
import SmartFoodOps.Pricing.Satisfiable

open Assistant (minimumTotal unorderable)
open Cheapest

namespace Pricing

variable {isPrintable : Char → Bool} {snapshot : Snapshot} {config : PricingConfig} {item : Item}
  {group : ModifierGroup} {options : List Selection} {s : Selection}

/-! ### What the assistant sees -/

def ModifierGroup.deltas (group : ModifierGroup) : List ℤ :=
  group.options.map ModifierOption.priceDeltaCents

def Item.dish (item : Item) : Assistant.Dish where
  id := item.id
  name := item.name
  priceCents := item.priceCents
  currency := item.currency
  available := item.available
  modifierGroups := item.modifierGroups.map fun group => ⟨group.minSelect, group.deltas⟩

/-- `minimum_total` takes the cheapest options of each group. -/
theorem minimumTotal_eq (h : item.Regular) : minimumTotal item.dish = item.priceCents +
    (item.modifierGroups.map fun group => cheapest group.minSelect.toNat group.deltas).sum := by
  unfold minimumTotal Item.dish
  dsimp only
  rw [List.map_map]
  refine congrArg (item.priceCents + ·) (congrArg List.sum (List.map_congr_left fun g hg => ?_))
  have henough := (h.group g hg).enough
  have hlength : (g.deltas.length : ℤ) = g.options.length := by
    rw [ModifierGroup.deltas, List.length_map]
  show Assistant.OptionGroup.floor ⟨g.minSelect, g.deltas⟩ = _
  unfold Assistant.OptionGroup.floor
  dsimp only
  split
  · next hmin => rw [Int.toNat_of_nonpos hmin, cheapest_zero]
  · rw [if_pos (by omega)]
    rfl

/-! ### The price of a choice -/

/-- What an option of the group adds. -/
def ModifierGroup.delta (group : ModifierGroup) (optionId : String) : ℤ :=
  ((group.options.find? fun option => option.id = optionId).map
    ModifierOption.priceDeltaCents).getD 0

/-- What the selections of the group add. -/
def ModifierGroup.picks (group : ModifierGroup) (options : List Selection) : List ℤ :=
  ((options.filter fun s => s.groupId = group.id).map Selection.optionId).map group.delta

theorem delta_eq (hnodup : (group.options.map ModifierOption.id).Nodup) {option : ModifierOption}
    (hoption : option ∈ group.options) : group.delta option.id = option.priceDeltaCents := by
  unfold ModifierGroup.delta
  rw [(Keyed.find?_eq_some_of_nodup hnodup).mpr ⟨hoption, rfl⟩, Option.map_some, Option.getD_some]

theorem map_delta {picked : List ModifierOption}
    (hnodup : (group.options.map ModifierOption.id).Nodup) (hpicked : picked ⊆ group.options) :
    (picked.map ModifierOption.id).map group.delta = picked.map ModifierOption.priceDeltaCents := by
  rw [List.map_map]
  exact List.map_congr_left fun option hoption => delta_eq hnodup (hpicked hoption)

/-- The price of a selection is that of the option of its group. -/
theorem priced_eq (h : item.Unique) (hgroup : group ∈ item.modifierGroups)
    (hid : s.groupId = group.id) (hs : ∃ o, item.Names s o) :
    (item.priced s).map PricedOption.priceDeltaCents = some (group.delta s.optionId) := by
  obtain ⟨-, group', hgroup', option, hoption, hgid, hoid, -⟩ := hs
  obtain rfl : group' = group :=
    List.inj_on_of_nodup_map h.groups hgroup' hgroup (hgid.trans hid)
  have hget : (Dict.index ModifierGroup.id item.modifierGroups).get s.groupId = some group' :=
    (Dict.get_index_eq_some h.groups).mpr ⟨hgroup', hgid⟩
  have hfind : group'.options.find? (fun o => o.id = s.optionId) = some option :=
    (Keyed.find?_eq_some_of_nodup (h.options group' hgroup')).mpr ⟨hoption, hoid⟩
  unfold Item.priced Item.lookup ModifierGroup.delta
  rw [hget, Option.bind_some, hfind]
  rfl

/-- **The price of a choice, group by group.** -/
theorem unitWithOptions_eq (h : item.Unique) (hallowed : item.Allowed options) :
    item.unitWithOptions options = item.priceCents +
      (item.modifierGroups.map fun group => (group.picks options).sum).sum := by
  unfold Item.unitWithOptions
  refine congrArg (item.priceCents + ·) ?_
  have hgroups : ∀ s ∈ options, s.groupId ∈ item.modifierGroups.map ModifierGroup.id := by
    intro s hs
    obtain ⟨-, g, hg, -, -, hgid, -⟩ := hallowed.names s hs
    exact List.mem_map.mpr ⟨g, hg, hgid⟩
  have hperm := Keyed.flatMap_filter_perm h.groups hgroups
  rw [List.map_filterMap, ← (hperm.filterMap _).sum_eq, List.filterMap_flatMap, List.flatMap_map,
    List.flatMap_def, List.sum_flatten, List.map_map]
  refine congrArg List.sum (List.map_congr_left fun g hg => ?_)
  unfold ModifierGroup.picks
  rw [List.map_map, ← List.filterMap_eq_map]
  refine congrArg List.sum (List.filterMap_congr fun s hs => ?_)
  obtain ⟨hmem, hid⟩ := List.mem_filter.mp hs
  exact priced_eq h hg (of_decide_eq_true hid) (hallowed.names s hmem)

theorem length_picks : (group.picks options).length = inGroup options group.id := by
  rw [ModifierGroup.picks, List.length_map, List.length_map, inGroup, List.countP_eq_length_filter]

/-- The picks of a group are of its options, each once. -/
theorem picks_subperm (h : item.Unique) (hallowed : item.Allowed options)
    (hgroup : group ∈ item.modifierGroups) : (group.picks options).Subperm group.deltas := by
  have hnodup : ((options.filter fun s => s.groupId = group.id).map Selection.optionId).Nodup := by
    refine List.Nodup.map_on (fun s hs s' hs' hid => ?_) (hallowed.nodup.filter _)
    have hg := of_decide_eq_true (List.mem_filter.mp hs).2
    have hg' := of_decide_eq_true (List.mem_filter.mp hs').2
    exact Selection.ext (hg.trans hg'.symm) hid
  have hsubset : (options.filter fun s => s.groupId = group.id).map Selection.optionId ⊆
      group.options.map ModifierOption.id := by
    intro i hi
    obtain ⟨s, hs, rfl⟩ := List.mem_map.mp hi
    obtain ⟨hmem, hid⟩ := List.mem_filter.mp hs
    obtain ⟨-, g, hg, option, hoption, hgid, hoid, -⟩ := hallowed.names s hmem
    obtain rfl : g = group :=
      List.inj_on_of_nodup_map h.groups hg hgroup (hgid.trans (of_decide_eq_true hid))
    exact List.mem_map.mpr ⟨option, hoption, hoid⟩
  obtain ⟨l, hperm, hsub⟩ := List.subperm_of_subset hnodup hsubset
  refine ⟨l.map group.delta, hperm.map _, ?_⟩
  have hdeltas : group.deltas = (group.options.map ModifierOption.id).map group.delta :=
    (map_delta (h.options group hgroup) (List.Subset.refl _)).symm
  rw [hdeltas]
  exact hsub.map _

/-- Nothing of a group costs less than as many of its cheapest options. -/
theorem cheapest_le_picks (h : item.Unique) (hallowed : item.Allowed options)
    (hgroup : group ∈ item.modifierGroups) :
    cheapest (inGroup options group.id) group.deltas ≤ (group.picks options).sum := by
  rw [← length_picks]
  exact cheapest_le_sum (picks_subperm h hallowed hgroup)

/-- **The cheapest choice of so many options of each group.** -/
theorem exists_cheapest (h : item.Regular) {k : ModifierGroup → ℕ}
    (hk : ∀ group ∈ item.modifierGroups, k group ≤ group.options.length ∧
      group.minSelect ≤ k group ∧ k group ≤ group.maxSelect) :
    ∃ options : List Selection, options.length = (item.modifierGroups.map k).sum ∧
      item.Allowed options ∧ item.unitWithOptions options =
        item.priceCents + (item.modifierGroups.map fun g => cheapest (k g) g.deltas).sum := by
  have hlength : ∀ g ∈ item.modifierGroups,
      (leastBy ModifierOption.priceDeltaCents (k g) g.options).length = k g :=
    fun g hg => length_leastBy _ (hk g hg).1
  obtain ⟨options, hoptions, hallowed, hids⟩ := exists_allowed h
    (fun g _ => leastBy_subperm ModifierOption.priceDeltaCents (k g) g.options)
    (fun g hg => by rw [hlength g hg]; exact (hk g hg).2)
  refine ⟨options, ?_, hallowed, ?_⟩
  · rw [hoptions]
    exact congrArg List.sum (List.map_congr_left hlength)
  · rw [unitWithOptions_eq h.unique hallowed]
    refine congrArg (item.priceCents + ·) (congrArg List.sum (List.map_congr_left fun g hg => ?_))
    have hsubset := (leastBy_subperm ModifierOption.priceDeltaCents (k g) g.options).subset
    rw [ModifierGroup.picks, hids g hg, map_delta (h.unique.options g hg) hsubset, sum_leastBy]
    rfl

/-! ### What the lines of one dish cost -/

/-- What lines of one such dish cost, of those that are priced. -/
def lineTotals (isPrintable : Char → Bool) (snapshot : Snapshot) (config : PricingConfig)
    (item : Item) : Set ℤ :=
  {t | ∃ (line : Line) (order : PricedOrder), line.itemId = item.id ∧ line.qty = 1 ∧
    priceOrder isPrintable snapshot [line] none config = .ok order ∧
      order.lines.map PricedLine.lineTotalCents = [t]}

section

variable (hopen : snapshot.restaurant.status = some "open" ∧
    snapshot.restaurant.openNow ≠ some false) (hoffered : snapshot.offered item.id = some item)

include hopen hoffered

/-- They are the prices of the choices that the item allows. -/
theorem mem_lineTotals (h : item.Regular) {t : ℤ} :
    t ∈ lineTotals isPrintable snapshot config item ↔ ∃ options : List Selection,
      options.length ≤ 10 ∧ item.Allowed options ∧ t = item.unitWithOptions options := by
  constructor
  · rintro ⟨line, order, hid, hqty, hok, ht⟩
    obtain ⟨hlines, -⟩ := priced_order hok
    obtain ⟨priced, rest, hpriced, hnil, horder⟩ := List.forall₂_cons_left_iff.mp hlines
    rw [List.forall₂_nil_left_iff.mp hnil] at horder
    unfold outcome at hpriced
    rw [hid, hoffered] at hpriced
    dsimp only at hpriced
    rw [horder, List.map_cons, lineTotal_of_priceLine hpriced, hqty] at ht
    refine ⟨line.options, line.bounded.2.2, (priceLine_ok hpriced).1, ?_⟩
    rw [← (List.cons_eq_cons.mp ht).1, Nat.cast_one, mul_one]
  · rintro ⟨options, hlength, hallowed, rfl⟩
    let line : Line := ⟨item.id, 1, options, h.short, by decide, by decide, hlength⟩
    obtain ⟨priced, hpriced⟩ : ∃ priced, priceLine isPrintable 0 line item = .ok priced :=
      exists_priceLine isPrintable 0 h.unique hallowed
    have hout : outcome isPrintable snapshot (line, 0) = .ok priced := by
      unfold outcome
      rw [show snapshot.offered line.itemId = some item from hoffered]
      exact hpriced
    obtain ⟨_, -, -, hinspect⟩ := inspect_ok (p := .start) hout
    have hfold : [line].zipIdx.foldl (inspect isPrintable snapshot) .start =
        inspect isPrintable snapshot .start (line, 0) := rfl
    refine ⟨line, _, rfl, rfl, (priceOrder_ok ..).mpr ⟨hopen, List.cons_ne_nil _ _, ?_, ?_, rfl⟩,
      ?_⟩
    · rw [hfold, hinspect]
      exact ⟨rfl, rfl⟩
    · rintro _ ⟨⟩
    · dsimp only
      rw [hfold, hinspect]
      have ht := lineTotal_of_priceLine hpriced
      rw [show (line.qty : ℤ) = 1 from rfl, mul_one] at ht
      exact congrArg (fun t => [t]) ht

end

/-! ### Exactly the least -/

/-- Nothing on a menu costs as much as what cannot be ordered. -/
theorem minimumTotal_lt (h : Stocked item) : minimumTotal item.dish < unorderable := by
  obtain ⟨hgroups, hoptions⟩ := h.length_le
  rw [minimumTotal_eq h.regular]
  have hgroup : ∀ t ∈ item.modifierGroups.map fun group =>
      cheapest group.minSelect.toNat group.deltas, t ≤ 2000000 := by
    intro t ht
    obtain ⟨g, hg, rfl⟩ := List.mem_map.mp ht
    have hle := List.sum_le_card_nsmul ((g.deltas.insertionSort (· ≤ ·)).take g.minSelect.toNat)
      100000 fun d hd => by
        obtain ⟨option, hoption, rfl⟩ :=
          List.mem_map.mp ((List.mem_insertionSort _).mp (List.mem_of_mem_take hd))
        exact ((h.regular.group g hg).deltas option hoption).2
    have hlength : ((g.deltas.insertionSort (· ≤ ·)).take g.minSelect.toNat).length ≤ 20 := by
      rw [List.length_take, List.length_insertionSort, ModifierGroup.deltas, List.length_map]
      exact (min_le_right _ _).trans (hoptions g hg)
    unfold cheapest
    rw [nsmul_eq_mul] at hle
    omega
  have hsum := List.sum_le_card_nsmul _ _ hgroup
  rw [List.length_map, nsmul_eq_mul] at hsum
  have hprice := h.regular.price.2
  unfold unorderable
  omega

/-- `minimum_total` is the least that a line of one costs, and it is as good as infinite if there is
no such line. -/
structure Exact (isPrintable : Char → Bool) (snapshot : Snapshot) (config : PricingConfig)
    (item : Item) : Prop where
  least : (lineTotals isPrintable snapshot config item).Nonempty →
    IsLeast (lineTotals isPrintable snapshot config item) (minimumTotal item.dish)
  unorderable : unorderable ≤ minimumTotal item.dish ↔
    lineTotals isPrintable snapshot config item = ∅

/-- Nobody saves money by taking more options than the minimums: there is no room for more, or each
group allows no more, or none that is left makes the dish cheaper. -/
def NoBargain (item : Item) : Prop :=
  item.minimum = 10 ∨ ∀ group ∈ item.modifierGroups, group.maxSelect = group.minSelect ∨
    (group.deltas.countP (· < 0) : ℤ) ≤ group.minSelect

theorem sum_minSelect (h : item.Regular) :
    (((item.modifierGroups.map fun group => group.minSelect.toNat).sum : ℕ) : ℤ) =
      item.minimum := by
  rw [Nat.cast_list_sum, List.map_map]
  refine congrArg List.sum (List.map_congr_left fun g hg => ?_)
  exact Int.toNat_of_nonneg (h.group g hg).minimum.1

/-- Where the minimums fill a line, they are what is taken. -/
theorem inGroup_eq_of_full (h : item.Regular) (hfull : item.minimum = 10)
    (hallowed : item.Allowed options) (hlength : options.length ≤ 10)
    (hgroup : group ∈ item.modifierGroups) : (inGroup options group.id : ℤ) = group.minSelect := by
  by_contra hne
  have hcounts := hallowed.counts
  have hsum := sum_inGroup_le h.groups options
  rw [List.map_map] at hsum
  have hlt : item.minimum <
      (item.modifierGroups.map fun g => (inGroup options g.id : ℤ)).sum :=
    List.sum_lt_sum _ _ (fun g hg => (hcounts g hg).1)
      ⟨group, hgroup, (hcounts group hgroup).1.lt_of_ne fun he => hne he.symm⟩
  have hcast : (item.modifierGroups.map fun g => (inGroup options g.id : ℤ)).sum =
      ((item.modifierGroups.map (inGroup options ∘ ModifierGroup.id)).sum : ℕ) := by
    rw [Nat.cast_list_sum, List.map_map]
    rfl
  omega

/-- Then the cheapest minimums are the cheapest choice. -/
theorem minimumTotal_le (h : item.Regular) (hbargain : NoBargain item)
    (hallowed : item.Allowed options) (hlength : options.length ≤ 10) :
    minimumTotal item.dish ≤ item.unitWithOptions options := by
  rw [minimumTotal_eq h, unitWithOptions_eq h.unique hallowed]
  refine add_le_add_right (List.sum_le_sum fun g hg => ?_) _
  refine le_trans ?_ (cheapest_le_picks h.unique hallowed hg)
  have hcounts := hallowed.counts g hg
  have hexact : (inGroup options g.id : ℤ) = g.minSelect →
      cheapest g.minSelect.toNat g.deltas ≤ cheapest (inGroup options g.id) g.deltas := by
    intro he
    rw [← he, Int.toNat_natCast]
  rcases hbargain with hfull | hgroups
  · exact hexact (inGroup_eq_of_full h hfull hallowed hlength hg)
  · rcases hgroups g hg with hmax | hnegative
    · exact hexact (by omega)
    · exact cheapest_le_cheapest (by omega) (by omega)

/-- The cheapest minimums are a choice. -/
theorem exists_minimumTotal (h : item.Regular) : ∃ options : List Selection,
    (options.length : ℤ) = item.minimum ∧ item.Allowed options ∧
      item.unitWithOptions options = minimumTotal item.dish := by
  obtain ⟨options, hlength, hallowed, hunit⟩ := exists_cheapest h
    (k := fun group => group.minSelect.toNat) fun g hg => by
      have hmin := (h.group g hg).minimum
      have henough := (h.group g hg).enough
      omega
  refine ⟨options, ?_, hallowed, ?_⟩
  · rw [hlength, sum_minSelect h]
  · rw [hunit, minimumTotal_eq h]

/-- **A bargain**: one more option of a group makes the dish cheaper. -/
theorem exists_bargain (h : item.Regular) (hmin : item.minimum ≤ 10) (hbargain : ¬ NoBargain item) :
    ∃ options : List Selection, options.length ≤ 10 ∧ item.Allowed options ∧
      item.unitWithOptions options < minimumTotal item.dish := by
  unfold NoBargain at hbargain
  push Not at hbargain
  obtain ⟨hroom, group, hgroup, hmax, hnegative⟩ := hbargain
  have hregular := h.group group hgroup
  have hdeltas : ∀ g : ModifierGroup, g.deltas.length = g.options.length := fun g => by
    rw [ModifierGroup.deltas, List.length_map]
  obtain ⟨options, hlength, hallowed, hunit⟩ := exists_cheapest h
    (k := fun g => g.minSelect.toNat + if g = group then 1 else 0) fun g hg => by
      have hg' := (h.group g hg).minimum
      have henough := (h.group g hg).enough
      split
      · next he =>
        subst he
        have hcount := List.countP_le_length (p := fun d : ℤ => decide (d < 0)) (l := g.deltas)
        rw [hdeltas] at hcount
        omega
      · omega
  have hless : cheapest (group.minSelect.toNat + 1) group.deltas <
      cheapest group.minSelect.toNat group.deltas := by
    have hmin := hregular.minimum.1
    exact cheapest_succ_lt (by omega)
  refine ⟨options, ?_, hallowed, ?_⟩
  · have hone : (item.modifierGroups.map fun g => if g = group then 1 else 0).sum = 1 := by
      rw [List.sum_map_eq_nsmul_single group _ fun g hne _ => if_neg hne, if_pos rfl,
        List.count_eq_one_of_mem (List.Nodup.of_map _ h.groups) hgroup, one_nsmul]
    rw [List.sum_map_add, hone] at hlength
    have hsum := sum_minSelect h
    omega
  · rw [hunit, minimumTotal_eq h]
    refine add_lt_add_right (List.sum_lt_sum _ _ (fun g _ => ?_) ⟨group, hgroup, ?_⟩) _
    · split
      · next he =>
        rw [he]
        exact hless.le
      · exact le_refl _
    · rw [if_pos rfl]
      exact hless

section

variable (hopen : snapshot.restaurant.status = some "open" ∧
    snapshot.restaurant.openNow ≠ some false) (hoffered : snapshot.offered item.id = some item)

include hopen hoffered

/-- **`minimum_total` is exact** if and only if the minimums of the groups fit into a line, and no
more options make the dish cheaper. -/
theorem exact_iff (hstocked : Stocked item) : Exact isPrintable snapshot config item ↔
    item.minimum ≤ 10 ∧ NoBargain item := by
  have h := hstocked.regular
  have hlt := minimumTotal_lt hstocked
  constructor
  · intro hexact
    have hne : lineTotals isPrintable snapshot config item ≠ ∅ := fun hempty =>
      absurd (hexact.unorderable.mpr hempty) (not_le.mpr hlt)
    obtain ⟨t, ht⟩ := Set.nonempty_iff_ne_empty.mpr hne
    obtain ⟨options, hlength, hallowed, -⟩ := (mem_lineTotals hopen hoffered h).mp ht
    have hmin := minimum_le h hallowed
    refine ⟨by omega, ?_⟩
    by_contra hbargain
    obtain ⟨cheaper, hfits, hallowed', hless⟩ := exists_bargain h (by omega) hbargain
    have hmem : item.unitWithOptions cheaper ∈ lineTotals isPrintable snapshot config item :=
      (mem_lineTotals hopen hoffered h).mpr ⟨cheaper, hfits, hallowed', rfl⟩
    exact absurd ((hexact.least ⟨t, ht⟩).2 hmem) (not_le.mpr hless)
  · rintro ⟨hmin, hbargain⟩
    obtain ⟨options, hlength, hallowed, hunit⟩ := exists_minimumTotal h
    have hmem : minimumTotal item.dish ∈ lineTotals isPrintable snapshot config item :=
      (mem_lineTotals hopen hoffered h).mpr ⟨options, by omega, hallowed, hunit.symm⟩
    refine ⟨fun _ => ⟨hmem, fun t ht => ?_⟩, iff_of_false (not_le.mpr hlt) ?_⟩
    · obtain ⟨others, hfits, hallowed', rfl⟩ := (mem_lineTotals hopen hoffered h).mp ht
      exact minimumTotal_le h hbargain hallowed' hfits
    · exact (Set.nonempty_of_mem hmem).ne_empty

end

/-! ### A dish with extras, and one without its fries -/

/-- The half portion and the cheapest two of the extras, one of which is taken off the price. -/
theorem exact_biryani :
    Exact (fun _ => true) biryaniMenu {} (biryani.stored "biryani" biryaniIds) ∧
      minimumTotal (biryani.stored "biryani" biryaniIds).dish = 750 := by
  refine ⟨(exact_iff ⟨rfl, by decide⟩ biryani_offered
    (.added biryani biryaniIds (by decide))).mpr ⟨by decide +kernel, .inr ?_⟩, by decide +kernel⟩
  decide +kernel

/-- A side that may be left out, for less. -/
def leaveOut : ModifierGroupIn where
  name := "Leave out"
  options := [⟨"No fries", -200, 0, by decide⟩]
  bounded := by decide
  satisfiable := by decide

def burger : ItemIn where
  name := "Burger"
  priceCents := 1000
  modifierGroups := [leaveOut]
  bounded := by decide

def burgerIds : Drawn burger.modifierGroups where
  ids := [("out", ["fries"])]
  options := .cons (by decide) .nil
  nodup := by decide
  short := by decide

def burgerMenu : Snapshot := menuOf [burger.stored "burger" burgerIds]

/-- **A budget that is missed**: without its fries the burger costs less than the least. -/
theorem burger_overpriced : minimumTotal (burger.stored "burger" burgerIds).dish = 1000 ∧
    800 ∈ lineTotals (fun _ => true) burgerMenu {} (burger.stored "burger" burgerIds) ∧
    ¬ Exact (fun _ => true) burgerMenu {} (burger.stored "burger" burgerIds) := by
  have hstocked : Stocked (burger.stored "burger" burgerIds) :=
    .added burger burgerIds (by decide)
  have hoffered : burgerMenu.offered "burger" = some (burger.stored "burger" burgerIds) := by
    decide +kernel
  have htotal : minimumTotal (burger.stored "burger" burgerIds).dish = 1000 := by
    decide +kernel
  have hgroups : (burger.stored "burger" burgerIds).modifierGroups =
      [⟨"out", "Leave out", 0, 1, [⟨"fries", "No fries", -200⟩]⟩] := by decide +kernel
  have hmem : 800 ∈ lineTotals (fun _ => true) burgerMenu {} (burger.stored "burger" burgerIds) := by
    refine (mem_lineTotals ⟨rfl, by decide⟩ hoffered hstocked.regular).mpr
      ⟨[⟨"out", "fries", by decide⟩], by decide, ⟨?_, by decide, ?_⟩, by decide +kernel⟩
    · refine List.forall_mem_singleton.mpr ⟨⟨"out", "Leave out", "fries", "No fries", -200⟩, ?_⟩
      refine ⟨⟨"out", "Leave out", 0, 1, [⟨"fries", "No fries", -200⟩]⟩, ?_,
        ⟨"fries", "No fries", -200⟩, List.mem_singleton_self _, rfl, rfl, rfl⟩
      rw [hgroups]
      exact List.mem_singleton_self _
    · rw [hgroups]
      decide +kernel
  refine ⟨htotal, hmem, fun hexact => ?_⟩
  have hle := (hexact.least ⟨_, hmem⟩).2 hmem
  rw [htotal] at hle
  exact absurd hle (by decide)

end Pricing
