/-
The pricing engine: what a quote shows and what a placement charges.

* `Snapshot` — catalog's pricing read of a restaurant, as it arrives;
* `Selection`, `Line`, `PricingConfig` — what a client asks for and the knobs, with their bounds;
* `choose`, `groupIssue`, `priceLine` — the selections of a line, one after the other, and then
  the groups of its item;
* `inspect`, `priceOrder` — every line is inspected, and then all that is wrong is reported at
  once.

Which characters `repr` prints as they are is a parameter.
-/
import SmartFoodOps.Lib.Dict
import Mathlib.Data.Finset.Sort
import Mathlib.Data.String.Basic
import Mathlib.Algebra.BigOperators.Group.List.Basic
import Mathlib.Algebra.Ring.Int.Defs

namespace Pricing

/-! ### The snapshot -/

structure ModifierOption where
  id : String
  name : String
  priceDeltaCents : ℤ
  deriving DecidableEq

structure ModifierGroup where
  id : String
  name : String
  minSelect : ℤ
  maxSelect : ℤ
  options : List ModifierOption
  deriving DecidableEq

structure Item where
  id : String
  name : String
  priceCents : ℤ
  currency : String
  available : Bool
  modifierGroups : List ModifierGroup
  deriving DecidableEq

structure Restaurant where
  id : String
  name : String
  status : Option String
  /-- `none` in a snapshot from before there were hours, and for a brand. -/
  openNow : Option Bool := none
  deriving DecidableEq

structure Snapshot where
  restaurant : Restaurant
  items : List Item
  missingItemIds : List String := []
  deriving DecidableEq

/-! ### Requests -/

/-- `Field(min_length=1, max_length=64)`. -/
def Short (s : String) : Prop := 1 ≤ s.length ∧ s.length ≤ 64

instance (s : String) : Decidable (Short s) := inferInstanceAs (Decidable (_ ∧ _))

@[ext]
structure Selection where
  groupId : String
  optionId : String
  short : Short groupId ∧ Short optionId
  deriving DecidableEq

structure Line where
  itemId : String
  qty : ℕ
  options : List Selection
  short : Short itemId
  bounded : 1 ≤ qty ∧ qty ≤ 50 ∧ options.length ≤ 10
  deriving DecidableEq

structure PricingConfig where
  deliveryFeeCents : ℕ := 199
  taxBasisPoints : ℕ := 825
  bounded : deliveryFeeCents ≤ 10000 ∧ taxBasisPoints ≤ 3000 := by decide
  deriving DecidableEq

/-! ### Results -/

structure PricedOption where
  groupId : String
  groupName : String
  optionId : String
  name : String
  priceDeltaCents : ℤ
  deriving DecidableEq

structure PricedLine where
  itemId : String
  name : String
  qty : ℕ
  unitPriceCents : ℤ
  options : List PricedOption
  lineTotalCents : ℤ
  deriving DecidableEq

structure Totals where
  subtotalCents : ℤ
  discountCents : ℤ
  feeCents : ℤ
  taxCents : ℤ
  totalCents : ℤ
  deriving DecidableEq

structure PricedOrder where
  lines : List PricedLine
  totals : Totals
  currency : String
  restaurantName : String
  deriving DecidableEq

structure Violation where
  field : String
  issue : String
  deriving DecidableEq

inductive PricingError
  | restaurantClosed (id : String)
  | invalidSelection (details : List Violation)
  | itemUnavailable (itemIds : List String)
  | priceChanged (current : ℤ)
  deriving DecidableEq

/-! ### The engine -/

section

variable (isPrintable : Char → Bool)

/-- The digits of an escape, `n` of them. -/
def hex (n : ℕ) (c : Char) : List Char :=
  let digits := Nat.toDigits 16 c.toNat
  List.replicate (n - digits.length) '0' ++ digits

def backslash : Char := Char.ofNat 92

def escape (quote c : Char) : List Char :=
  if c = quote ∨ c = backslash then [backslash, c]
  else if c = '\n' then [backslash, 'n']
  else if c = '\r' then [backslash, 'r']
  else if c = '\t' then [backslash, 't']
  else if isPrintable c then [c]
  else if c.toNat < 256 then backslash :: 'x' :: hex 2 c
  else if c.toNat < 65536 then backslash :: 'u' :: hex 4 c
  else backslash :: 'U' :: hex 8 c

/-- `repr` of a string: in double quotes if it has single quotes and no double ones. -/
def repr (s : String) : String :=
  let single := Char.ofNat 39
  let double := Char.ofNat 34
  let quote := if single ∈ s.toList ∧ double ∉ s.toList then double else single
  String.ofList (quote :: s.toList.flatMap (escape isPrintable quote) ++ [quote])

/-- Why a line is not priced; the line's item is unavailable if the menu has moved on. -/
inductive Refusal
  | unavailable
  | violation (v : Violation)
  deriving DecidableEq

/-- What has been chosen of a line's options so far. -/
structure Picks where
  chosen : List PricedOption
  pickedPerGroup : Dict String (Finset String)

namespace Picks

def empty : Picks := ⟨[], .empty⟩

def picked (p : Picks) (groupId : String) : Finset String := (p.pickedPerGroup.get groupId).getD ∅

def add (p : Picks) (group : ModifierGroup) (option : ModifierOption) : Picks where
  chosen := p.chosen ++ [⟨group.id, group.name, option.id, option.name, option.priceDeltaCents⟩]
  pickedPerGroup := p.pickedPerGroup.alter group.id fun o => insert option.id (o.getD ∅)

end Picks

/-- The loop over a line's selections. -/
def choose (field : String) (item : Item) : List Selection → Picks → Except Refusal Picks
  | [], p => .ok p
  | selection :: rest, p =>
    match (Dict.index ModifierGroup.id item.modifierGroups).get selection.groupId with
    | none => .error .unavailable
    | some group =>
      match group.options.find? fun o => o.id = selection.optionId with
      | none => .error .unavailable
      | some option =>
        if selection.optionId ∈ p.picked group.id then
          .error (.violation ⟨field, "duplicate option in group " ++ repr isPrintable group.name⟩)
        else choose field item rest (p.add group option)

/-- What a group has to say about the number of its options that were picked. -/
def groupIssue (p : Picks) (group : ModifierGroup) : Option String :=
  let count : ℤ := (p.picked group.id).card
  if count < group.minSelect then
    some ("group " ++ repr isPrintable group.name ++ " requires at least " ++
      toString group.minSelect ++ " selection(s)")
  else if group.maxSelect < count then
    some ("group " ++ repr isPrintable group.name ++ " allows at most " ++
      toString group.maxSelect ++ " selection(s)")
  else none

/-- `_price_line`. -/
def priceLine (index : ℕ) (line : Line) (item : Item) : Except Refusal PricedLine :=
  let field := "lines[" ++ toString index ++ "].options"
  match choose isPrintable field item line.options .empty with
  | .error refusal => .error refusal
  | .ok picks =>
    -- also the groups that the client never mentioned
    match item.modifierGroups.findSome? (groupIssue isPrintable picks) with
    | some issue => .error (.violation ⟨field, issue⟩)
    | none =>
      let unitWithOptions := item.priceCents + (picks.chosen.map (·.priceDeltaCents)).sum
      .ok { itemId := line.itemId
            name := item.name
            qty := line.qty
            unitPriceCents := item.priceCents
            options := picks.chosen
            lineTotalCents := unitWithOptions * line.qty }

/-- The item of a line, unless it is missing or cannot be had. -/
def Snapshot.offered (snapshot : Snapshot) (itemId : String) : Option Item :=
  match (Dict.index Item.id snapshot.items).get itemId with
  | none => none
  | some item => if itemId ∈ snapshot.missingItemIds ∨ item.available = false then none else some item

/-- What the inspection of the lines has found so far. -/
structure Progress where
  unavailable : Finset String
  violations : List Violation
  priced : List PricedLine
  currency : String

def Progress.start : Progress := ⟨∅, [], [], "USD"⟩

/-- One line. -/
def inspect (snapshot : Snapshot) (p : Progress) (entry : Line × ℕ) : Progress :=
  let line := entry.1
  match snapshot.offered line.itemId with
  | none => { p with unavailable := insert line.itemId p.unavailable }
  | some item =>
    match priceLine isPrintable entry.2 line item with
    | .error .unavailable => { p with unavailable := insert line.itemId p.unavailable }
    | .error (.violation v) => { p with violations := p.violations ++ [v] }
    | .ok priced => { p with priced := p.priced ++ [priced], currency := item.currency }

def totals (config : PricingConfig) (priced : List PricedLine) : Totals :=
  let subtotal := (priced.map (·.lineTotalCents)).sum
  let discount := 0
  let fee : ℤ := config.deliveryFeeCents
  let tax := subtotal * config.taxBasisPoints / 10000
  { subtotalCents := subtotal
    discountCents := discount
    feeCents := fee
    taxCents := tax
    totalCents := subtotal - discount + fee + tax }

/-- The elements in order. -/
def sorted {α : Type} [LinearOrder α] (items : Finset α) : List α := items.sort (· ≤ ·)

def priceOrder (snapshot : Snapshot) (lines : List Line) (expectedTotalCents : Option ℤ)
    (config : PricingConfig) : Except PricingError PricedOrder :=
  let restaurant := snapshot.restaurant
  if restaurant.status ≠ some "open" ∨ restaurant.openNow = some false then
    .error (.restaurantClosed restaurant.id)
  else if lines = [] then
    .error (.invalidSelection [⟨"lines", "at least one line required"⟩])
  else
    let found := lines.zipIdx.foldl (inspect isPrintable snapshot) .start
    if found.unavailable ≠ ∅ then .error (.itemUnavailable (sorted found.unavailable))
    else if found.violations ≠ [] then .error (.invalidSelection found.violations)
    else
      let totals := totals config found.priced
      -- the drift is checked last, when there is a total
      if ∃ expected ∈ expectedTotalCents, expected ≠ totals.totalCents then
        .error (.priceChanged totals.totalCents)
      else .ok ⟨found.priced, totals, found.currency, restaurant.name⟩

end

end Pricing
