/-
What is charged, and whether it can be paid.

* `Item.priced`, `Item.unitWithOptions` — the options of a line and its unit price, from the
  menu;
* `foldl_priced` — the lines of a priced order, one by one;
* `Snapshot.unit`, `Snapshot.total` — what a cart costs, from the menu and the knobs;
* `Payable`, `payable_iff` — a placed total can be authorized exactly if what the cart costs is in
  the range, and no dish costs less than nothing with its options;
* `one_currency_iff` — an order has one currency exactly if all its items have the same.
-/
import SmartFoodOps.Pricing.Menu
import Mathlib.Algebra.Order.BigOperators.Group.List
import Mathlib.Algebra.Order.Ring.Int

namespace Pricing

section

variable {isPrintable : Char → Bool} {snapshot : Snapshot} {lines : List Line} {line : Line}
  {item : Item} {order : PricedOrder} {config : PricingConfig} {expected : Option ℤ}

/-! ### A line -/

/-- The option of a selection, with its price. -/
def Item.priced (item : Item) (s : Selection) : Option PricedOption :=
  (item.lookup s).map fun found =>
    ⟨found.1.id, found.1.name, found.2.id, found.2.name, found.2.priceDeltaCents⟩

def Item.unitWithOptions (item : Item) (options : List Selection) : ℤ :=
  item.priceCents + ((options.filterMap item.priced).map PricedOption.priceDeltaCents).sum

/-- The options chosen are the ones that the menu has for the selections. -/
theorem choose_chosen {field : String} {options : List Selection} {p q : Picks}
    (h : choose isPrintable field item options p = .ok q) :
    q.chosen = p.chosen ++ options.filterMap item.priced := by
  induction options generalizing p with
  | nil =>
    cases h
    exact (List.append_nil _).symm
  | cons s rest ih =>
    rw [choose_cons] at h
    rcases hs : item.lookup s with _ | ⟨group, option⟩
    · rw [hs] at h
      cases h
    · rw [hs] at h
      dsimp only at h
      split at h
      · cases h
      · have hpriced : item.priced s =
            some ⟨group.id, group.name, option.id, option.name, option.priceDeltaCents⟩ := by
          unfold Item.priced
          rw [hs]
          rfl
        rw [ih h, List.filterMap_cons_some hpriced]
        exact (List.append_cons _ _ _).symm

/-- The price of a line, from the menu. -/
theorem lineTotal_of_priceLine {index : ℕ} {priced : PricedLine}
    (h : priceLine isPrintable index line item = .ok priced) :
    priced.lineTotalCents = item.unitWithOptions line.options * line.qty := by
  unfold priceLine at h
  dsimp only at h
  split at h
  · cases h
  · next picks hpicks =>
    split at h
    · cases h
    · cases h
      have hchosen := choose_chosen hpicks
      show (item.priceCents + (picks.chosen.map _).sum) * _ = _
      rw [hchosen]
      rfl

/-! ### The lines of an order -/

variable (isPrintable snapshot) in
/-- **The loop over the lines of an order that is priced**: each line has its price, and the
currency is the one of a line's item. -/
theorem foldl_priced (entries : List (Line × ℕ)) (p : Progress)
    (h : (entries.foldl (inspect isPrintable snapshot) p).Clean) :
    ∃ priced, List.Forall₂ (fun entry priced => outcome isPrintable snapshot entry = .ok priced)
        entries priced ∧
      (entries.foldl (inspect isPrintable snapshot) p).priced = p.priced ++ priced ∧
      (entries = [] ∧ (entries.foldl (inspect isPrintable snapshot) p).currency = p.currency ∨
        ∃ entry ∈ entries, ∃ item, snapshot.offered entry.1.itemId = some item ∧
          (entries.foldl (inspect isPrintable snapshot) p).currency = item.currency) := by
  induction entries generalizing p with
  | nil => exact ⟨[], .nil, (List.append_nil _).symm, .inl ⟨rfl, rfl⟩⟩
  | cons entry rest ih =>
    rcases hout : outcome isPrintable snapshot entry with refusal | priced
    · exfalso
      cases refusal with
      | unavailable =>
        have hmem := (mem_unavailable isPrintable snapshot (entry :: rest) p).mpr
          (.inr ⟨entry, List.mem_cons_self, rfl, hout⟩)
        rw [h.1] at hmem
        cases hmem
      | violation v =>
        have hmem := (mem_violations isPrintable snapshot (entry :: rest) p).mpr
          (.inr ⟨entry, List.mem_cons_self, hout⟩)
        rw [h.2] at hmem
        cases hmem
    · obtain ⟨item, hitem, -, hinspect⟩ := inspect_ok (p := p) hout
      rw [List.foldl_cons, hinspect] at h ⊢
      obtain ⟨more, hmore, hpriced, hcurrency⟩ := ih _ h
      refine ⟨priced :: more, .cons hout hmore, hpriced.trans (List.append_cons ..).symm, .inr ?_⟩
      rcases hcurrency with ⟨-, hsame⟩ | ⟨entry', hentry', item', hitem', hcurrency⟩
      · exact ⟨entry, List.mem_cons_self, item, hitem, hsame⟩
      · exact ⟨entry', List.mem_cons_of_mem _ hentry', item', hitem', hcurrency⟩

/-- What an order that is priced consists of. -/
theorem priced_order (h : priceOrder isPrintable snapshot lines expected config = .ok order) :
    List.Forall₂ (fun entry priced => outcome isPrintable snapshot entry = .ok priced)
        lines.zipIdx order.lines ∧
      order.totals = totals config order.lines ∧
      (∀ total ∈ expected, total = order.totals.totalCents) ∧
      ∃ line ∈ lines, ∃ item, snapshot.offered line.itemId = some item ∧
        order.currency = item.currency := by
  obtain ⟨-, hlines, hclean, hexpected, horder⟩ := (priceOrder_ok ..).mp h
  obtain ⟨priced, hpriced, happend, hcurrency⟩ := foldl_priced isPrintable snapshot _ _ hclean
  rw [happend] at horder
  subst horder
  refine ⟨hpriced, rfl, hexpected, ?_⟩
  rcases hcurrency with ⟨hnil, -⟩ | ⟨entry, hentry, item, hitem, hcurrency⟩
  · exact absurd (List.zipIdx_eq_nil_iff.mp hnil) hlines
  · exact ⟨entry.1, List.fst_mem_of_mem_zipIdx hentry, item, hitem, hcurrency⟩

/-- A priced line and its line of the cart. -/
theorem outcome_ok {entry : Line × ℕ} {priced : PricedLine}
    (h : outcome isPrintable snapshot entry = .ok priced) :
    ∃ item, snapshot.offered entry.1.itemId = some item ∧
      priced.lineTotalCents = item.unitWithOptions entry.1.options * entry.1.qty := by
  obtain ⟨item, hitem, hpriced, -⟩ := inspect_ok (p := .start) h
  exact ⟨item, hitem, lineTotal_of_priceLine hpriced⟩

/-! ### What a cart costs -/

/-- What one of a line's dishes costs. -/
def Snapshot.unit (snapshot : Snapshot) (line : Line) : ℤ :=
  ((snapshot.offered line.itemId).map fun item => item.unitWithOptions line.options).getD 0

/-- All the dishes. -/
def Snapshot.subtotal (snapshot : Snapshot) (lines : List Line) : ℤ :=
  (lines.map fun line => snapshot.unit line * line.qty).sum

/-- With the fee and the tax, whose last cent is rounded down. -/
def Snapshot.total (snapshot : Snapshot) (config : PricingConfig) (lines : List Line) : ℤ :=
  snapshot.subtotal lines + config.deliveryFeeCents +
    snapshot.subtotal lines * config.taxBasisPoints / 10000

theorem lineTotal_of_outcome {entry : Line × ℕ} {priced : PricedLine}
    (h : outcome isPrintable snapshot entry = .ok priced) :
    priced.lineTotalCents = snapshot.unit entry.1 * entry.1.qty := by
  obtain ⟨item, hitem, htotal⟩ := outcome_ok h
  rw [htotal, Snapshot.unit, hitem]
  rfl

/-- The lines' totals are what the menu says. -/
theorem map_lineTotal
    (h : List.Forall₂ (fun entry priced => outcome isPrintable snapshot entry = .ok priced)
      lines.zipIdx order.lines) :
    order.lines.map PricedLine.lineTotalCents =
      lines.map fun line => snapshot.unit line * line.qty := by
  have htotals : lines.zipIdx.map (fun entry => snapshot.unit entry.1 * entry.1.qty) =
      order.lines.map PricedLine.lineTotalCents := by
    rw [← List.forall₂_eq_eq_eq, List.forall₂_map_left_iff, List.forall₂_map_right_iff]
    exact h.imp fun _ _ hout => (lineTotal_of_outcome hout).symm
  calc order.lines.map PricedLine.lineTotalCents
      = lines.zipIdx.map fun entry => snapshot.unit entry.1 * entry.1.qty := htotals.symm
    _ = (lines.zipIdx.map Prod.fst).map fun line => snapshot.unit line * line.qty := by
        rw [List.map_map]
        rfl
    _ = lines.map fun line => snapshot.unit line * line.qty := by rw [List.zipIdx_map_fst]

/-- **The totals of an order that is priced**, from the menu. -/
theorem totals_of_priced (h : priceOrder isPrintable snapshot lines expected config = .ok order) :
    order.totals.subtotalCents = snapshot.subtotal lines ∧
      order.totals.totalCents = snapshot.total config lines := by
  obtain ⟨hlines, htotals, -⟩ := priced_order h
  have hsubtotal : order.totals.subtotalCents = snapshot.subtotal lines := by
    rw [htotals]
    exact congrArg List.sum (map_lineTotal hlines)
  have hsum : order.totals.totalCents = order.totals.subtotalCents - 0 + config.deliveryFeeCents +
      order.totals.subtotalCents * config.taxBasisPoints / 10000 := by
    rw [htotals]
    rfl
  refine ⟨hsubtotal, ?_⟩
  rw [hsum, hsubtotal, sub_zero]
  rfl

/-- No line costs less than nothing exactly if no dish does, with its options. -/
theorem lines_nonneg_iff
    (h : List.Forall₂ (fun entry priced => outcome isPrintable snapshot entry = .ok priced)
      lines.zipIdx order.lines) :
    (∀ priced ∈ order.lines, 0 ≤ priced.lineTotalCents) ↔
      ∀ line ∈ lines, 0 ≤ snapshot.unit line := by
  have hsame : (∀ priced ∈ order.lines, 0 ≤ priced.lineTotalCents) ↔
      ∀ line ∈ lines, 0 ≤ snapshot.unit line * line.qty := by
    rw [← List.forall_mem_map (f := PricedLine.lineTotalCents) (P := fun total => 0 ≤ total),
      map_lineTotal h, List.forall_mem_map]
  rw [hsame]
  refine forall₂_congr fun line _ => ?_
  -- a line is of one dish at least
  have hqty : (0 : ℤ) < (line.qty : ℤ) := by
    have := line.bounded.1
    omega
  exact mul_nonneg_iff_of_pos_right hqty

/-! ### Totals that can be authorized -/

/-- What the authorize route takes, and what an order is made of. -/
structure Payable (order : PricedOrder) : Prop where
  total : 1 ≤ order.totals.totalCents ∧ order.totals.totalCents ≤ 10000000
  subtotal : 0 ≤ order.totals.subtotalCents
  lines : ∀ priced ∈ order.lines, 0 ≤ priced.lineTotalCents

/-- **A placed total can be paid exactly if the dishes, the fee and the tax add up to what can be
authorized, and no dish costs less than nothing with its options.** -/
theorem payable_iff {body : PlaceOrderIn} (h : priceOrder isPrintable snapshot body.lines
      (some body.expectedTotalCents) config = .ok order) :
    Payable order ↔
      (1 ≤ snapshot.total config body.lines ∧ snapshot.total config body.lines ≤ 10000000) ∧
      ∀ line ∈ body.lines, 0 ≤ snapshot.unit line := by
  obtain ⟨hlines, -⟩ := priced_order h
  obtain ⟨hsubtotal, htotal⟩ := totals_of_priced h
  constructor
  · intro hpay
    have hrange := hpay.total
    rw [htotal] at hrange
    exact ⟨hrange, (lines_nonneg_iff hlines).mp hpay.lines⟩
  · rintro ⟨hrange, hunit⟩
    rw [← htotal] at hrange
    refine ⟨hrange, ?_, (lines_nonneg_iff hlines).mpr hunit⟩
    rw [hsubtotal]
    refine List.sum_nonneg fun total hmem => ?_
    obtain ⟨line, hline, rfl⟩ := List.mem_map.mp hmem
    exact mul_nonneg (hunit line hline) (Int.natCast_nonneg _)

/-! ### Currencies -/

/-- **An order's currency is that of all its items exactly if they have one.** -/
theorem one_currency_iff
    (h : priceOrder isPrintable snapshot lines expected config = .ok order) :
    (∀ line ∈ lines, ∀ item, snapshot.offered line.itemId = some item →
      item.currency = order.currency) ↔
    ∀ line ∈ lines, ∀ line' ∈ lines, ∀ item item', snapshot.offered line.itemId = some item →
      snapshot.offered line'.itemId = some item' → item.currency = item'.currency := by
  obtain ⟨-, -, -, last, hlast, lastItem, hlastItem, hcurrency⟩ := priced_order h
  constructor
  · intro hall line hline line' hline' item item' hitem hitem'
    rw [hall line hline item hitem, hall line' hline' item' hitem']
  · intro hsame line hline item hitem
    rw [hcurrency]
    exact hsame line hline last hlast item lastItem hitem hlastItem

end

/-! ### Orders off a menu -/

def noGroups : Drawn [] := ⟨[], .nil, List.nodup_nil, by simp⟩

/-- A dish without options. -/
def dish (name currency : String) (priceCents : ℕ)
    (h : (1 ≤ name.length ∧ name.length ≤ 120) ∧ priceCents ≤ 10000000 ∧ IsCurrency currency) :
    ItemIn where
  name := name
  priceCents := priceCents
  currency := currency
  bounded := ⟨h.1, h.2.1, h.2.2, by decide⟩

def banquet : ItemIn := dish "Banquet" "USD" 10000000 (by decide)

def naan : ItemIn := dish "Naan" "PKR" 100 (by decide)

def soup : ItemIn := dish "Soup" "USD" 250 (by decide)

/-- A menu of such dishes. -/
def menuOf (items : List Item) : Snapshot where
  restaurant := { id := "r", name := "Hall", status := some "open" }
  items := items

def lineOf (itemId : String) (h : Short itemId) : Line where
  itemId := itemId
  qty := 1
  options := []
  short := h
  bounded := by decide

def banquetMenu : Snapshot := menuOf [banquet.stored "banquet" noGroups]

def mixedMenu : Snapshot := menuOf [naan.stored "naan" noGroups, soup.stored "soup" noGroups]

def banquetOrder : PlaceOrderIn := ⟨[lineOf "banquet" (by decide)], 10825199, by decide⟩

def mixedLines : List Line := [lineOf "naan" (by decide), lineOf "soup" (by decide)]

theorem banquetMenu_served : banquetMenu.Served := by
  intro item hitem
  rw [List.mem_singleton.mp hitem]
  exact .added banquet noGroups (by decide)

theorem mixedMenu_served : mixedMenu.Served := by
  intro item hitem
  rcases List.mem_cons.mp hitem with rfl | hitem
  · exact .added naan noGroups (by decide)
  · rw [List.mem_singleton.mp hitem]
    exact .added soup noGroups (by decide)

/-- An order is priced if its total and its currency can be read off. -/
theorem exists_ok {result : Except PricingError PricedOrder} {total : ℤ} {currency : String}
    (h : result.toOption.map (fun order => (order.totals.totalCents, order.currency)) =
      some (total, currency)) :
    ∃ order, result = .ok order ∧ order.totals.totalCents = total ∧ order.currency = currency := by
  rcases result with e | order
  · cases h
  · have hpair := Option.some.inj h
    exact ⟨order, rfl, congrArg Prod.fst hpair, congrArg Prod.snd hpair⟩

/-- What the total and the currency of an order are. -/
def charged (snapshot : Snapshot) (lines : List Line) (expected : Option ℤ) : Option (ℤ × String) :=
  (priceOrder (fun _ => true) snapshot lines expected {}).toOption.map fun order =>
    (order.totals.totalCents, order.currency)

def lassi : Item :=
  ⟨"lassi", "Lassi", 300, "USD", true, [⟨"sugar", "Sugar", 0, 1, [⟨"less", "Less", -50⟩]⟩]⟩

def lassis : Line where
  itemId := "lassi"
  qty := 3
  options := [⟨"sugar", "less", by decide⟩]
  short := by decide
  bounded := by decide

def diner : Snapshot := menuOf [karahi, lassi]

/-- Two large dishes, and three drinks with an option that costs less than nothing. -/
def dinerOrder : PlaceOrderIn := ⟨[largeKarahis, lassis], 3931, by decide⟩

theorem charged_examples :
    charged diner dinerOrder.lines (some dinerOrder.expectedTotalCents) = some (3931, "USD") ∧
      charged banquetMenu banquetOrder.lines (some banquetOrder.expectedTotalCents) =
        some (10825199, "USD") ∧
      charged mixedMenu mixedLines none = some (577, "USD") := by
  decide +kernel

theorem exists_diner : ∃ order, priceOrder (fun _ => true) diner dinerOrder.lines
    (some dinerOrder.expectedTotalCents) {} = .ok order := by
  obtain ⟨order, hok, -⟩ : ∃ order, priceOrder (fun _ => true) diner dinerOrder.lines
      (some dinerOrder.expectedTotalCents) {} = .ok order ∧
        order.totals.totalCents = 3931 ∧ order.currency = "USD" :=
    exists_ok charged_examples.1
  exact ⟨order, hok⟩

/-- The dinner, for what the customer was shown. -/
theorem payable_diner : ∃ order, priceOrder (fun _ => true) diner dinerOrder.lines
    (some dinerOrder.expectedTotalCents) {} = .ok order ∧ Payable order := by
  obtain ⟨order, hok⟩ := exists_diner
  exact ⟨order, hok, (payable_iff hok).mpr (by decide +kernel)⟩

/-- One dish costs what can be paid, and then there are the fee and the tax. -/
theorem banquet_unpayable : ¬ ∀ (isPrintable : Char → Bool) (snapshot : Snapshot)
    (body : PlaceOrderIn) (config : PricingConfig) (order : PricedOrder), snapshot.Served →
    priceOrder isPrintable snapshot body.lines (some body.expectedTotalCents) config = .ok order →
    Payable order := by
  intro h
  obtain ⟨order, hok, htotal, -⟩ : ∃ order, priceOrder (fun _ => true) banquetMenu
      banquetOrder.lines (some banquetOrder.expectedTotalCents) {} = .ok order ∧
        order.totals.totalCents = 10825199 ∧ order.currency = "USD" :=
    exists_ok charged_examples.2.1
  have hrange := (h (fun _ => true) banquetMenu banquetOrder {} order banquetMenu_served hok).total
  rw [htotal] at hrange
  exact absurd hrange (by decide)

/-- Both dishes are in dollars. -/
theorem one_currency_diner : ∃ order, priceOrder (fun _ => true) diner dinerOrder.lines
    (some dinerOrder.expectedTotalCents) {} = .ok order ∧
    ∀ line ∈ dinerOrder.lines, ∀ item, diner.offered line.itemId = some item →
      item.currency = order.currency := by
  obtain ⟨order, hok⟩ := exists_diner
  have hdollars : ∀ line ∈ dinerOrder.lines,
      (diner.offered line.itemId).map Item.currency = some "USD" := by decide +kernel
  refine ⟨order, hok, (one_currency_iff hok).mpr ?_⟩
  intro line hline line' hline' item item' hitem hitem'
  have hfirst := hdollars line hline
  have hsecond := hdollars line' hline'
  rw [hitem, Option.map_some, Option.some.injEq] at hfirst
  rw [hitem', Option.map_some, Option.some.injEq] at hsecond
  rw [hfirst, hsecond]

/-- A dish in rupees and one in dollars add up to dollars. -/
theorem currencies_mixed : ¬ ∀ (isPrintable : Char → Bool) (snapshot : Snapshot)
    (lines : List Line) (expected : Option ℤ) (config : PricingConfig) (order : PricedOrder),
    snapshot.Served → priceOrder isPrintable snapshot lines expected config = .ok order →
    ∀ line ∈ lines, ∀ item, snapshot.offered line.itemId = some item →
      item.currency = order.currency := by
  intro h
  obtain ⟨order, hok, -, hcurrency⟩ : ∃ order,
      priceOrder (fun _ => true) mixedMenu mixedLines none {} = .ok order ∧
        order.totals.totalCents = 577 ∧ order.currency = "USD" :=
    exists_ok charged_examples.2.2
  have hnaan : mixedMenu.offered "naan" = some (naan.stored "naan" noGroups) := by decide +kernel
  have hsame := h (fun _ => true) mixedMenu mixedLines none {} order mixedMenu_served hok
    (lineOf "naan" (by decide)) List.mem_cons_self _ hnaan
  rw [hcurrency] at hsame
  exact absurd hsame (by decide)

end Pricing
