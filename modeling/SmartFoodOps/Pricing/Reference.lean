/-
What the pricing engine accepts, and what it charges.

* `Snapshot.Unique` — the identifiers of items, of an item's groups and of a group's options
  are used once;
* `Snapshot.Sells`, `Allowed` — an item can be had, and a choice of its options can be made;
* `Orderable` — the orders that are priced;
* `choose_ok`, `priceLine_ok`, `foldl_inspect_ok` — each loop accepts what it should;
* `priced_iff` — the engine prices an order exactly if it is `Orderable`, and what it charges.
-/
import SmartFoodOps.Pricing.Engine

namespace Pricing

/-! ### The reference -/

structure Item.Unique (item : Item) : Prop where
  groups : (item.modifierGroups.map ModifierGroup.id).Nodup
  options : ∀ group ∈ item.modifierGroups, (group.options.map ModifierOption.id).Nodup

structure Snapshot.Unique (snapshot : Snapshot) : Prop where
  items : (snapshot.items.map Item.id).Nodup
  item : ∀ item ∈ snapshot.items, item.Unique

/-- The item is present, not missing, and available. -/
def Snapshot.Sells (snapshot : Snapshot) (itemId : String) (item : Item) : Prop :=
  item ∈ snapshot.items ∧ item.id = itemId ∧ itemId ∉ snapshot.missingItemIds ∧
    item.available = true

/-- The selection names an option of the item. -/
def Item.Names (item : Item) (s : Selection) (o : PricedOption) : Prop :=
  ∃ group ∈ item.modifierGroups, ∃ option ∈ group.options,
    group.id = s.groupId ∧ option.id = s.optionId ∧
      o = ⟨group.id, group.name, option.id, option.name, option.priceDeltaCents⟩

/-- How many of the selections are of the group. -/
def inGroup (options : List Selection) (groupId : String) : ℕ :=
  options.countP fun s => s.groupId = groupId

/-- A choice that the item allows: existing options, none of them twice, and of each group as
many as the group says. -/
structure Item.Allowed (item : Item) (options : List Selection) : Prop where
  names : ∀ s ∈ options, ∃ o, item.Names s o
  nodup : options.Nodup
  counts : ∀ group ∈ item.modifierGroups, group.minSelect ≤ inGroup options group.id ∧
    inGroup options group.id ≤ group.maxSelect

/-- A line that can be priced. -/
def Snapshot.Takes (snapshot : Snapshot) (line : Line) : Prop :=
  ∃ item, snapshot.Sells line.itemId item ∧ item.Allowed line.options

structure Orderable (snapshot : Snapshot) (lines : List Line) : Prop where
  status : snapshot.restaurant.status = some "open"
  openNow : snapshot.restaurant.openNow ≠ some false
  takes : ∀ line ∈ lines, snapshot.Takes line
  nonempty : lines ≠ []

/-- The price of a line: the item's and that of the options chosen, times the quantity. -/
structure Item.Prices (item : Item) (line : Line) (priced : PricedLine) : Prop where
  itemId : priced.itemId = line.itemId
  name : priced.name = item.name
  qty : priced.qty = line.qty
  unit : priced.unitPriceCents = item.priceCents
  options : List.Forall₂ item.Names line.options priced.options
  total : priced.lineTotalCents =
    (item.priceCents + (priced.options.map PricedOption.priceDeltaCents).sum) * line.qty

def Snapshot.Prices (snapshot : Snapshot) (line : Line) (priced : PricedLine) : Prop :=
  ∃ item, snapshot.Sells line.itemId item ∧ item.Prices line priced

/-- What an order costs. -/
structure Charges (snapshot : Snapshot) (lines : List Line) (config : PricingConfig)
    (order : PricedOrder) : Prop where
  lines : List.Forall₂ snapshot.Prices lines order.lines
  subtotal : order.totals.subtotalCents = (order.lines.map PricedLine.lineTotalCents).sum
  discount : order.totals.discountCents = 0
  fee : order.totals.feeCents = config.deliveryFeeCents
  /-- The floor. -/
  tax : 10000 * order.totals.taxCents ≤ order.totals.subtotalCents * config.taxBasisPoints ∧
    order.totals.subtotalCents * config.taxBasisPoints < 10000 * (order.totals.taxCents + 1)
  total : order.totals.totalCents =
    order.totals.subtotalCents + order.totals.feeCents + order.totals.taxCents
  restaurant : order.restaurantName = snapshot.restaurant.name

/-! ### A line's options -/

/-- Every element on the left has its counterpart on the right. -/
theorem exists_right {α β : Type*} {R : α → β → Prop} {l : List α} {l' : List β}
    (h : List.Forall₂ R l l') {a : α} (ha : a ∈ l) : ∃ b ∈ l', R a b := by
  induction h with
  | nil => cases ha
  | cons hab _ ih =>
    rcases List.mem_cons.mp ha with rfl | ha
    · exact ⟨_, List.mem_cons_self, hab⟩
    · obtain ⟨b, hb, hr⟩ := ih ha
      exact ⟨b, List.mem_cons_of_mem _ hb, hr⟩

section

variable {isPrintable : Char → Bool} {field : String} {item : Item} {p q : Picks}
  {done options : List Selection} {s : Selection} {o : PricedOption}

/-- The picks are those of the selections. -/
structure Picked (item : Item) (done : List Selection) (p : Picks) : Prop where
  chosen : List.Forall₂ item.Names done p.chosen
  picked : ∀ groupId, p.picked groupId =
    ((done.filter fun s => s.groupId = groupId).map Selection.optionId).toFinset
  nodup : done.Nodup

theorem picked_empty : Picked item [] .empty := ⟨.nil, fun _ => rfl, List.nodup_nil⟩

/-- Whether an option was picked before is whether the selection was made before. -/
theorem Picked.mem_picked (h : Picked item done p) :
    s.optionId ∈ p.picked s.groupId ↔ s ∈ done := by
  rw [h.picked, List.mem_toFinset, List.mem_map]
  constructor
  · rintro ⟨s', hs', hoption⟩
    obtain ⟨hmem, hgroup⟩ := List.mem_filter.mp hs'
    rwa [← Selection.ext (of_decide_eq_true hgroup) hoption]
  · exact fun hs => ⟨s, List.mem_filter.mpr ⟨hs, decide_eq_true rfl⟩, rfl⟩

theorem Picked.add (h : Picked item done p) {group : ModifierGroup} {option : ModifierOption}
    (hgroup : group ∈ item.modifierGroups) (hoption : option ∈ group.options)
    (hg : group.id = s.groupId) (ho : option.id = s.optionId) (hs : s ∉ done) :
    Picked item (done ++ [s]) (p.add group option) where
  chosen := List.rel_append h.chosen
    (.cons ⟨group, hgroup, option, hoption, hg, ho, rfl⟩ .nil)
  picked := by
    intro groupId
    have hp := h.picked groupId
    unfold Picks.picked at hp ⊢
    show ((p.pickedPerGroup.alter _ _).get groupId).getD ∅ = _
    rw [Dict.get_alter, List.filter_append, List.map_append, List.toFinset_append]
    by_cases hid : s.groupId = groupId
    · rw [if_pos (hg.trans hid), hg, hid, Option.getD_some, hp, List.filter_singleton,
        decide_eq_true hid, cond_true]
      ext x
      simp [ho]
    · rw [if_neg (fun h' => hid (hg.symm.trans h')), hp, List.filter_singleton,
        decide_eq_false hid, cond_false]
      simp
  nodup := List.nodup_append.mpr ⟨h.nodup, List.nodup_singleton s, fun x hx y hy => by
    rw [List.mem_singleton.mp hy]
    rintro rfl
    exact hs hx⟩

/-- **The loop over the selections.** -/
theorem choose_ok (h : Picked item done p) :
    choose isPrintable field item options p = .ok q →
      Picked item (done ++ options) q := by
  induction options generalizing done p with
  | nil =>
    intro hq
    cases hq
    rwa [List.append_nil]
  | cons s rest ih =>
    intro hq
    unfold choose at hq
    split at hq
    · cases hq
    · next group hgroup =>
      obtain ⟨hmem, hg⟩ := Dict.mem_of_get_index hgroup
      split at hq
      · cases hq
      · next option hoption =>
        have ho : option.id = s.optionId := by simpa using List.find?_some hoption
        split at hq
        · cases hq
        · next hfresh =>
          rw [hg, h.mem_picked] at hfresh
          have hadd := h.add hmem (List.mem_of_find?_eq_some hoption) hg ho hfresh
          rw [List.append_cons]
          exact ih hadd hq

variable (isPrintable field) in
/-- Selections that exist, and were not made before, are taken. -/
theorem exists_choose (hu : item.Unique) (h : Picked item done p)
    (hnames : ∀ s ∈ options, ∃ o, item.Names s o) (hnodup : (done ++ options).Nodup) :
    ∃ q, choose isPrintable field item options p = .ok q := by
  induction options generalizing done p with
  | nil => exact ⟨p, rfl⟩
  | cons s rest ih =>
    obtain ⟨-, group, hgroup, option, hoption, hg, ho, -⟩ := hnames s List.mem_cons_self
    have hget : (Dict.index ModifierGroup.id item.modifierGroups).get s.groupId = some group :=
      (Dict.get_index_eq_some hu.groups).mpr ⟨hgroup, hg⟩
    have hfind : group.options.find? (fun o => o.id = s.optionId) = some option :=
      (Keyed.find?_eq_some_of_nodup (hu.options group hgroup)).mpr ⟨hoption, ho⟩
    have hfresh : s ∉ done := fun hs =>
      (List.nodup_append.mp hnodup).2.2 s hs s List.mem_cons_self rfl
    obtain ⟨q, hq⟩ := ih (h.add hgroup hoption hg ho hfresh)
      (fun s' hs' => hnames s' (List.mem_cons_of_mem s hs')) (by rwa [← List.append_cons])
    refine ⟨q, ?_⟩
    unfold choose
    rw [hget]
    dsimp only
    rw [hfind]
    dsimp only
    rwa [if_neg (by rwa [hg, h.mem_picked])]

/-- The options picked of a group are the selections of it. -/
theorem Picked.card (h : Picked item done p) (groupId : String) :
    (p.picked groupId).card = inGroup done groupId := by
  rw [h.picked, List.toFinset_card_of_nodup, List.length_map, inGroup, List.countP_eq_length_filter]
  refine (h.nodup.filter _).map_on ?_
  intro x hx y hy hxy
  have hgx := of_decide_eq_true (List.mem_filter.mp hx).2
  have hgy := of_decide_eq_true (List.mem_filter.mp hy).2
  exact Selection.ext (hgx.trans hgy.symm) hxy

theorem groupIssue_eq_none {group : ModifierGroup} :
    groupIssue isPrintable p group = none ↔
      group.minSelect ≤ (p.picked group.id).card ∧ (p.picked group.id).card ≤ group.maxSelect := by
  unfold groupIssue
  dsimp only
  split
  · next h => simp [h]
  · next h =>
    split
    · next h' => simp [h']
    · next h' => exact ⟨fun _ => ⟨not_lt.mp h, not_lt.mp h'⟩, fun _ => rfl⟩

/-! ### A line -/

variable {index : ℕ} {line : Line} {priced : PricedLine}

theorem priceLine_ok (h : priceLine isPrintable index line item = .ok priced) :
    item.Allowed line.options ∧ item.Prices line priced := by
  unfold priceLine at h
  dsimp only at h
  split at h
  · cases h
  · next picks hpicks =>
    split at h
    · cases h
    · next hissue =>
      cases h
      have hp : Picked item line.options picks := choose_ok picked_empty hpicks
      refine ⟨⟨fun s hs => ?_, hp.nodup, fun group hgroup => ?_⟩, ⟨rfl, rfl, rfl, rfl, hp.chosen, rfl⟩⟩
      · obtain ⟨o, -, ho⟩ := exists_right hp.chosen hs
        exact ⟨o, ho⟩
      · have hnone := List.findSome?_eq_none_iff.mp hissue group hgroup
        rw [groupIssue_eq_none, hp.card] at hnone
        exact hnone

variable (isPrintable index) in
theorem exists_priceLine (hu : item.Unique) (h : item.Allowed line.options) :
    ∃ priced, priceLine isPrintable index line item = .ok priced := by
  obtain ⟨picks, hpicks⟩ := exists_choose isPrintable ("lines[" ++ toString index ++ "].options")
    hu picked_empty h.names (by rw [List.nil_append]; exact h.nodup)
  have hp : Picked item line.options picks := choose_ok picked_empty hpicks
  have hnone : item.modifierGroups.findSome? (groupIssue isPrintable picks) = none := by
    refine List.findSome?_eq_none_iff.mpr fun group hgroup => ?_
    rw [groupIssue_eq_none, hp.card]
    exact h.counts group hgroup
  unfold priceLine
  dsimp only
  rw [hpicks]
  dsimp only
  rw [hnone]
  exact ⟨_, rfl⟩

end

/-! ### An order -/

section

variable {isPrintable : Char → Bool} {snapshot : Snapshot} {line : Line} {lines : List Line}
  {entries : List (Line × ℕ)} {item : Item} {config : PricingConfig} {order : PricedOrder}

theorem offered_iff (hu : snapshot.Unique) {itemId : String} :
    snapshot.offered itemId = some item ↔ snapshot.Sells itemId item := by
  have hget := Dict.get_index_eq_some hu.items (k := itemId) (x := item)
  unfold Snapshot.offered Snapshot.Sells
  split
  · next hnone =>
    rw [hnone] at hget
    constructor
    · intro h
      cases h
    · rintro ⟨hmem, hid, -⟩
      exact hget.mpr ⟨hmem, hid⟩
  · next found hfound =>
    rw [hfound, Option.some.injEq] at hget
    split
    · next hout =>
      constructor
      · intro h
        cases h
      · rintro ⟨hmem, hid, hmissing, hthere⟩
        rw [hget.mpr ⟨hmem, hid⟩, hthere] at hout
        exact absurd hout (by simp [hmissing])
    · next hin =>
      rw [not_or, Bool.not_eq_false] at hin
      constructor
      · rintro ⟨⟩
        exact ⟨(hget.mp rfl).1, (hget.mp rfl).2, hin⟩
      · rintro ⟨hmem, hid, -⟩
        rw [hget.mpr ⟨hmem, hid⟩]

/-- Nothing wrong has been found. -/
def Progress.Clean (p : Progress) : Prop := p.unavailable = ∅ ∧ p.violations = []

variable (isPrintable) in
/-- One line: it adds its price, or something that is wrong. -/
theorem inspect_cases (hu : snapshot.Unique) (p : Progress) (entry : Line × ℕ) :
    (∃ priced currency, snapshot.Takes entry.1 ∧ snapshot.Prices entry.1 priced ∧
      inspect isPrintable snapshot p entry =
        { p with priced := p.priced ++ [priced], currency := currency }) ∨
    ¬ snapshot.Takes entry.1 ∧
      ((∃ itemId, inspect isPrintable snapshot p entry =
        { p with unavailable := insert itemId p.unavailable }) ∨
      ∃ v, inspect isPrintable snapshot p entry = { p with violations := p.violations ++ [v] }) := by
  unfold inspect
  dsimp only
  rcases Option.eq_none_or_eq_some (snapshot.offered entry.1.itemId) with hnone | ⟨item, hitem⟩
  · rw [hnone]
    refine .inr ⟨?_, .inl ⟨_, rfl⟩⟩
    rintro ⟨item, hsells, -⟩
    rw [(offered_iff hu).mpr hsells] at hnone
    cases hnone
  · rw [hitem]
    have hsells := (offered_iff hu).mp hitem
    have hitemUnique := hu.item item hsells.1
    dsimp only
    rcases hline : priceLine isPrintable entry.2 entry.1 item with refusal | priced
    · have hnot : ¬ snapshot.Takes entry.1 := by
        rintro ⟨item', hsells', hallowed⟩
        have hsame := (offered_iff hu).mpr hsells'
        rw [hitem, Option.some.injEq] at hsame
        subst hsame
        obtain ⟨priced, hpriced⟩ := exists_priceLine isPrintable entry.2 hitemUnique hallowed
        rw [hline] at hpriced
        cases hpriced
      cases refusal with
      | unavailable => exact .inr ⟨hnot, .inl ⟨_, rfl⟩⟩
      | violation v => exact .inr ⟨hnot, .inr ⟨v, rfl⟩⟩
    · obtain ⟨hallowed, hprices⟩ := priceLine_ok hline
      exact .inl ⟨priced, item.currency, ⟨item, hsells, hallowed⟩, ⟨item, hsells, hprices⟩, rfl⟩

variable (isPrintable entries) in
/-- **The loop over the lines**: nothing wrong is found if and only if each line is taken, and then
each has its price. -/
theorem foldl_inspect (hu : snapshot.Unique) (p : Progress) :
    ((entries.foldl (inspect isPrintable snapshot) p).Clean ↔
      p.Clean ∧ ∀ entry ∈ entries, snapshot.Takes entry.1) ∧
    ((entries.foldl (inspect isPrintable snapshot) p).Clean → ∃ priced,
      List.Forall₂ snapshot.Prices (entries.map Prod.fst) priced ∧
        (entries.foldl (inspect isPrintable snapshot) p).priced = p.priced ++ priced) := by
  induction entries generalizing p with
  | nil => exact ⟨by simp, fun _ => ⟨[], .nil, (List.append_nil _).symm⟩⟩
  | cons entry rest ih =>
    rw [List.foldl_cons, (ih _).1, List.forall_mem_cons, List.map_cons]
    rcases inspect_cases isPrintable hu p entry with
      ⟨priced, currency, htakes, hprices, hp⟩ | ⟨hnot, hp⟩
    · rw [hp]
      refine ⟨and_congr Iff.rfl (and_iff_right htakes).symm, fun hclean => ?_⟩
      obtain ⟨more, hmore, hfold⟩ := (ih _).2 ((ih _).1.mpr hclean)
      exact ⟨priced :: more, .cons hprices hmore, hfold.trans (List.append_cons ..).symm⟩
    · have hdirty : ¬ (inspect isPrintable snapshot p entry).Clean := by
        rcases hp with ⟨itemId, hp⟩ | ⟨v, hp⟩
        · rw [hp]
          exact fun hclean => Finset.insert_ne_empty _ _ hclean.1
        · rw [hp]
          exact fun hclean => List.append_ne_nil_of_right_ne_nil _ (List.cons_ne_nil _ _) hclean.2
      exact ⟨⟨fun h => absurd h.1 hdirty, fun h => absurd h.2.1 hnot⟩,
        fun hclean => absurd hclean.1 hdirty⟩

variable (isPrintable config) in
/-- What `priceOrder` checks, one after the other. -/
theorem priceOrder_ok {expected : Option ℤ} :
    priceOrder isPrintable snapshot lines expected config = .ok order ↔
      (snapshot.restaurant.status = some "open" ∧ snapshot.restaurant.openNow ≠ some false) ∧
      lines ≠ [] ∧ (lines.zipIdx.foldl (inspect isPrintable snapshot) .start).Clean ∧
      (∀ total ∈ expected, total = order.totals.totalCents) ∧
      order = ⟨(lines.zipIdx.foldl (inspect isPrintable snapshot) .start).priced,
        totals config (lines.zipIdx.foldl (inspect isPrintable snapshot) .start).priced,
        (lines.zipIdx.foldl (inspect isPrintable snapshot) .start).currency,
        snapshot.restaurant.name⟩ := by
  unfold priceOrder Progress.Clean
  dsimp only
  generalize lines.zipIdx.foldl (inspect isPrintable snapshot) .start = found
  split
  · next h => simp; tauto
  · next h =>
    split
    · next h' => simp [h']
    · next h' =>
      split
      · next h'' => simp [h'']
      · next h'' =>
        split
        · next h₃ => simp [h₃]
        · next h₃ =>
          split
          · next h₄ =>
            obtain ⟨total, htotal, hne⟩ := h₄
            constructor
            · intro h
              cases h
            · rintro ⟨-, -, -, hall, rfl⟩
              exact absurd (hall total htotal) hne
          · next h₄ =>
            push Not at h₄
            constructor
            · rintro ⟨⟩
              exact ⟨by simpa [not_or] using h, h', ⟨by simpa using h'', by simpa using h₃⟩, h₄, rfl⟩
            · rintro ⟨-, -, -, -, rfl⟩
              rfl

/-- **The engine meets its reference.**  It prices an order exactly if the order can be made;
each line costs what its item and its options cost; and a total that is expected must be met. -/
theorem price_order (isPrintable : Char → Bool) (hu : snapshot.Unique) (lines : List Line)
    (config : PricingConfig) :
    ((∃ order, priceOrder isPrintable snapshot lines none config = .ok order) ↔
      Orderable snapshot lines) ∧
    (∀ order, priceOrder isPrintable snapshot lines none config = .ok order →
      Charges snapshot lines config order) ∧
    ∀ total order, priceOrder isPrintable snapshot lines (some total) config = .ok order ↔
      priceOrder isPrintable snapshot lines none config = .ok order ∧
        total = order.totals.totalCents := by
  have hfold := foldl_inspect isPrintable lines.zipIdx hu .start
  rw [List.zipIdx_map_fst] at hfold
  have htakes : (∀ entry ∈ lines.zipIdx, snapshot.Takes entry.1) ↔
      ∀ line ∈ lines, snapshot.Takes line := by
    rw [← List.forall_mem_map (f := Prod.fst), List.zipIdx_map_fst]
  refine ⟨⟨?_, ?_⟩, ?_, ?_⟩
  · rintro ⟨order, h⟩
    obtain ⟨⟨hstatus, hopen⟩, hlines, hclean, -⟩ := (priceOrder_ok ..).mp h
    exact ⟨hstatus, hopen, htakes.mp (hfold.1.mp hclean).2, hlines⟩
  · intro h
    exact ⟨_, (priceOrder_ok ..).mpr ⟨⟨h.status, h.openNow⟩, h.nonempty,
      hfold.1.mpr ⟨⟨rfl, rfl⟩, htakes.mpr h.takes⟩, by simp, rfl⟩⟩
  · intro order h
    obtain ⟨-, -, hclean, -, rfl⟩ := (priceOrder_ok ..).mp h
    obtain ⟨priced, hprices, hpriced⟩ := hfold.2 hclean
    rw [hpriced]
    refine ⟨hprices, rfl, rfl, rfl, ⟨?_, ?_⟩, ?_, rfl⟩
    · exact Int.mul_ediv_self_le (by decide : (10000 : ℤ) ≠ 0)
    · rw [mul_add, mul_one]
      exact Int.lt_mul_ediv_self_add (by decide : (0 : ℤ) < 10000)
    · simp [totals]
  · intro total order
    rw [priceOrder_ok, priceOrder_ok]
    simp
    tauto

end

/-! ### An order -/

def size : ModifierGroup := ⟨"size", "Size", 1, 1, [⟨"small", "Small", 0⟩, ⟨"large", "Large", 250⟩]⟩

def karahi : Item := ⟨"karahi", "Karahi", 1099, "USD", true, [size]⟩

def kitchen : Snapshot where
  restaurant := { id := "r", name := "Kitchen", status := some "open" }
  items := [karahi]

def largeKarahis : Line where
  itemId := "karahi"
  qty := 2
  options := [⟨"size", "large", by decide⟩]
  short := by decide
  bounded := by decide

/-- Two large dishes, the fee and the tax. -/
theorem price_order_karahi : ∃ order, Charges kitchen [largeKarahis] {} order ∧
    order.totals.totalCents = 3119 := by
  have hu : kitchen.Unique := by
    refine ⟨by decide, fun item hitem => ?_⟩
    rw [List.mem_singleton.mp hitem]
    exact ⟨by decide, by decide⟩
  have htotal : ((priceOrder (fun _ => true) kitchen [largeKarahis] none {}).toOption.map
      fun order => order.totals.totalCents) = some 3119 := by decide +kernel
  rcases hok : priceOrder (fun _ => true) kitchen [largeKarahis] none {} with e | order
  · rw [hok] at htotal
    cases htotal
  · rw [hok] at htotal
    exact ⟨order, (price_order (fun _ => true) hu [largeKarahis] {}).2.1 order hok,
      Option.some.inj htotal⟩

end Pricing
