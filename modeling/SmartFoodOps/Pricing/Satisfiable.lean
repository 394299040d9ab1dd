/-
Whether an item can be ordered at all.

Catalog checks each group of an item by itself: its minimum is at most its maximum and at most the
number of its options.  A line holds ten selections, over all groups.

* `exists_selections` — a choice of any options, each once;
* `sum_inGroup_le` — the selections of a line cover its groups one by one;
* `orderable_iff` — an item that catalog accepts can be ordered exactly if the minimums of its
  groups add up to ten at most.
-/
import SmartFoodOps.Pricing.Payable
import Mathlib.Algebra.BigOperators.Ring.Finset

namespace Pricing

variable {isPrintable : Char → Bool} {snapshot : Snapshot} {item : Item} {group : ModifierGroup}

/-! ### Choices -/

/-- Some options of one group, each once. -/
theorem exists_selections_of_group (h : group.Regular) {picked : List ModifierOption}
    (hpicked : picked.Subperm group.options) :
    ∃ l : List Selection, l.map Selection.optionId = picked.map ModifierOption.id ∧ l.Nodup ∧
      ∀ s ∈ l, s.groupId = group.id ∧ ∃ option ∈ group.options, option.id = s.optionId := by
  have hshort : ∀ option ∈ picked, Short group.id ∧ Short option.id :=
    fun option hoption => ⟨h.short.1, h.short.2 option (hpicked.subset hoption)⟩
  have hids : (picked.pmap (fun option hs => (⟨group.id, option.id, hs⟩ : Selection)) hshort).map
      Selection.optionId = picked.map ModifierOption.id := by
    rw [List.map_pmap, List.pmap_eq_map]
  refine ⟨_, hids, ?_, ?_⟩
  · refine List.Nodup.of_map Selection.optionId ?_
    obtain ⟨l, hperm, hsub⟩ := hpicked
    rw [hids, ← (hperm.map ModifierOption.id).nodup_iff]
    exact h.options.sublist (hsub.map _)
  · intro s hs
    obtain ⟨option, hoption, rfl⟩ := List.mem_pmap.mp hs
    exact ⟨rfl, option, hpicked.subset hoption, rfl⟩

/-- The induction is over the groups, of which no two have the same identifier. -/
theorem exists_selections {groups : List ModifierGroup}
    (hnodup : (groups.map ModifierGroup.id).Nodup) (h : ∀ group ∈ groups, group.Regular)
    {pick : ModifierGroup → List ModifierOption}
    (hpick : ∀ group ∈ groups, (pick group).Subperm group.options) :
    ∃ l : List Selection, l.length = (groups.map fun group => (pick group).length).sum ∧ l.Nodup ∧
      (∀ s ∈ l, ∃ group ∈ groups, group.id = s.groupId ∧
        ∃ option ∈ group.options, option.id = s.optionId) ∧
      ∀ group ∈ groups, (l.filter fun s => s.groupId = group.id).map Selection.optionId =
        (pick group).map ModifierOption.id := by
  induction groups with
  | nil => exact ⟨[], rfl, List.nodup_nil, by simp, by simp⟩
  | cons group rest ih =>
    obtain ⟨hfresh, hrest⟩ := List.nodup_cons.mp hnodup
    obtain ⟨l, hlength, hl, hnames, hids⟩ := ih hrest
      (fun g hg => h g (List.mem_cons_of_mem _ hg)) fun g hg => hpick g (List.mem_cons_of_mem _ hg)
    obtain ⟨l₀, hids₀, hl₀, hnames₀⟩ := exists_selections_of_group (h group List.mem_cons_self)
      (hpick group List.mem_cons_self)
    -- none of the rest's selections is of the group
    have hapart : ∀ s ∈ l, s.groupId ≠ group.id := by
      intro s hs hid
      obtain ⟨g, hg, hgid, -⟩ := hnames s hs
      exact hfresh (List.mem_map.mpr ⟨g, hg, hgid.trans hid⟩)
    refine ⟨l₀ ++ l, ?_, ?_, ?_, ?_⟩
    · have hlength₀ := congrArg List.length hids₀
      rw [List.length_map, List.length_map] at hlength₀
      rw [List.length_append, List.map_cons, List.sum_cons, hlength, hlength₀]
    · refine List.nodup_append.mpr ⟨hl₀, hl, fun s hs s' hs' => ?_⟩
      rintro rfl
      exact hapart s hs' (hnames₀ s hs).1
    · intro s hs
      rcases List.mem_append.mp hs with hs | hs
      · obtain ⟨hid, hoption⟩ := hnames₀ s hs
        exact ⟨group, List.mem_cons_self, hid.symm, hoption⟩
      · obtain ⟨g, hg, hoption⟩ := hnames s hs
        exact ⟨g, List.mem_cons_of_mem _ hg, hoption⟩
    · intro g hg
      rw [List.filter_append, List.map_append]
      rcases List.mem_cons.mp hg with rfl | hg
      · have hall : (l₀.filter fun s => s.groupId = g.id) = l₀ :=
          List.filter_eq_self.mpr fun s hs => decide_eq_true (hnames₀ s hs).1
        have hnone : (l.filter fun s => s.groupId = g.id) = [] :=
          List.filter_eq_nil_iff.mpr fun s hs => by simpa using hapart s hs
        rw [hall, hnone, hids₀, List.map_nil, List.append_nil]
      · have hnone : (l₀.filter fun s => s.groupId = g.id) = [] := by
          refine List.filter_eq_nil_iff.mpr fun s hs => ?_
          rw [(hnames₀ s hs).1]
          have hne : group.id ≠ g.id := fun hid => hfresh (List.mem_map.mpr ⟨g, hg, hid.symm⟩)
          simpa using hne
        rw [hnone, List.map_nil, List.nil_append]
        exact hids g hg

/-- **Each selection is of one group at most.** -/
theorem sum_inGroup_le {ids : List String} (hids : ids.Nodup) (options : List Selection) :
    (ids.map (inGroup options)).sum ≤ options.length := by
  induction ids generalizing options with
  | nil => exact Nat.zero_le _
  | cons id rest ih =>
    obtain ⟨hfresh, hrest⟩ := List.nodup_cons.mp hids
    have hothers := ih hrest (options.filter fun s => s.groupId ≠ id)
    -- the other groups have the same selections without those of the first
    have hsame : rest.map (inGroup (options.filter fun s => s.groupId ≠ id)) =
        rest.map (inGroup options) := by
      refine List.map_congr_left fun other hother => ?_
      unfold inGroup
      rw [List.countP_filter]
      refine List.countP_congr fun s _ => ?_
      have hne : other ≠ id := fun h => hfresh (h ▸ hother)
      simp only [Bool.and_eq_true, decide_eq_true_eq]
      exact ⟨fun h => h.1, fun h => ⟨h, h ▸ hne⟩⟩
    have hsplit := List.length_eq_countP_add_countP (fun s : Selection => s.groupId = id) (l := options)
    rw [hsame, ← List.countP_eq_length_filter] at hothers
    rw [List.map_cons, List.sum_cons]
    unfold inGroup at hothers ⊢
    simp only [decide_not, decide_eq_true_eq] at hsplit hothers
    omega

/-! ### Orders of one line -/

/-- The client is to blame for nothing, and the item can be had. -/
def Accepts (result : Except PricingError PricedOrder) : Prop :=
  (∀ details, result ≠ .error (.invalidSelection details)) ∧
    ∀ ids, result ≠ .error (.itemUnavailable ids)

/-- When nothing wrong is found, what is left is the total. -/
theorem accepts_of_clean {lines : List Line} (hopen : snapshot.restaurant.status = some "open" ∧
      snapshot.restaurant.openNow ≠ some false) (hlines : lines ≠ [])
    (h : (lines.zipIdx.foldl (inspect isPrintable snapshot) .start).Clean) (expected : Option ℤ)
    (config : PricingConfig) :
    Accepts (priceOrder isPrintable snapshot lines expected config) := by
  have hclosed : ¬ (snapshot.restaurant.status ≠ some "open" ∨
      snapshot.restaurant.openNow = some false) := by
    rw [not_or, not_not]
    exact hopen
  unfold priceOrder
  dsimp only
  rw [if_neg hclosed, if_neg hlines, if_neg (not_not.mpr h.1), if_neg (not_not.mpr h.2)]
  split
  · exact ⟨by simp, by simp⟩
  · exact ⟨by simp, by simp⟩

/-- One line of an item that is offered is accepted exactly if it can be priced. -/
theorem accepts_iff (hopen : snapshot.restaurant.status = some "open" ∧
      snapshot.restaurant.openNow ≠ some false) {line : Line}
    (hoffered : snapshot.offered line.itemId = some item) (expected : Option ℤ)
    (config : PricingConfig) :
    Accepts (priceOrder isPrintable snapshot [line] expected config) ↔
      ∃ priced, priceLine isPrintable 0 line item = .ok priced := by
  obtain ⟨hunavailable, hviolations, -⟩ := priceOrder_error isPrintable hopen
    (List.cons_ne_nil line []) expected config
  have hout : outcome isPrintable snapshot (line, 0) = priceLine isPrintable 0 line item := by
    unfold outcome
    rw [hoffered]
  have hfold : [line].zipIdx.foldl (inspect isPrintable snapshot) .start =
      inspect isPrintable snapshot .start (line, 0) := rfl
  rw [hfold] at hunavailable hviolations
  rcases hline : priceLine isPrintable 0 line item with refusal | priced
  · rw [hline] at hout
    refine iff_of_false (fun haccepts => ?_) (by simp)
    cases refusal with
    | unavailable =>
      rw [inspect_unavailable hout] at hunavailable
      exact haccepts.2 _ (hunavailable (Finset.insert_ne_empty _ _))
    | violation v =>
      rw [inspect_violation hout] at hviolations
      exact haccepts.1 _ (hviolations rfl (List.cons_ne_nil _ _))
  · rw [hline] at hout
    refine iff_of_true ?_ ⟨priced, rfl⟩
    obtain ⟨_, -, -, hinspect⟩ := inspect_ok (p := .start) hout
    refine accepts_of_clean hopen (List.cons_ne_nil _ _) ?_ expected config
    rw [hfold, hinspect]
    exact ⟨rfl, rfl⟩

/-- What the groups of an item ask for, all together. -/
def Item.minimum (item : Item) : ℤ := (item.modifierGroups.map ModifierGroup.minSelect).sum

/-- **A choice of so many options of each group** is allowed. -/
theorem exists_allowed (h : item.Regular) {pick : ModifierGroup → List ModifierOption}
    (hpick : ∀ group ∈ item.modifierGroups, (pick group).Subperm group.options)
    (hcounts : ∀ group ∈ item.modifierGroups, group.minSelect ≤ (pick group).length ∧
      (pick group).length ≤ group.maxSelect) :
    ∃ options : List Selection,
      options.length = (item.modifierGroups.map fun group => (pick group).length).sum ∧
      item.Allowed options ∧ ∀ group ∈ item.modifierGroups,
        (options.filter fun s => s.groupId = group.id).map Selection.optionId =
          (pick group).map ModifierOption.id := by
  obtain ⟨options, hlength, hnodup, hnames, hids⟩ := exists_selections h.groups h.group hpick
  refine ⟨options, hlength, ⟨?_, hnodup, ?_⟩, hids⟩
  · intro s hs
    obtain ⟨g, hg, hgid, option, hoption, hoid⟩ := hnames s hs
    exact ⟨_, g, hg, option, hoption, hgid, hoid, rfl⟩
  · intro g hg
    have hlen := congrArg List.length (hids g hg)
    rw [List.length_map, List.length_map, ← List.countP_eq_length_filter] at hlen
    rw [inGroup, hlen]
    exact hcounts g hg

/-- The first options of each group, as many as must be taken. -/
theorem exists_minimum (h : item.Regular) : ∃ options : List Selection,
    (options.length : ℤ) = item.minimum ∧ item.Allowed options := by
  have hlength : ∀ group ∈ item.modifierGroups,
      ((group.options.take group.minSelect.toNat).length : ℤ) = group.minSelect := by
    intro group hgroup
    have hmin := (h.group group hgroup).minimum.1
    have henough := (h.group group hgroup).enough
    rw [List.length_take]
    omega
  obtain ⟨options, hoptions, hallowed, -⟩ := exists_allowed h
    (fun group _ => (List.take_sublist group.minSelect.toNat group.options).subperm)
    (fun group hgroup => by
      rw [hlength group hgroup]
      exact ⟨le_refl _, (h.group group hgroup).minimum.2⟩)
  refine ⟨options, ?_, hallowed⟩
  rw [hoptions, Nat.cast_list_sum, List.map_map]
  exact congrArg List.sum (List.map_congr_left hlength)

/-- What is allowed covers all the minimums. -/
theorem minimum_le {options : List Selection} (h : item.Regular) (hallowed : item.Allowed options) :
    item.minimum ≤ options.length := by
  have hle : item.minimum ≤
      ((item.modifierGroups.map ModifierGroup.id).map fun id => (inGroup options id : ℤ)).sum := by
    unfold Item.minimum
    rw [List.map_map]
    exact List.sum_le_sum fun g hg => (hallowed.counts g hg).1
  have hsum := sum_inGroup_le h.groups options
  have hcast : ((item.modifierGroups.map ModifierGroup.id).map fun id => (inGroup options id : ℤ)).sum
      = (((item.modifierGroups.map ModifierGroup.id).map (inGroup options)).sum : ℕ) := by
    simp only [Nat.cast_list_sum, List.map_map]
    rfl
  omega

theorem minimum_le_of_accepts (hstocked : Stocked item)
    (hopen : snapshot.restaurant.status = some "open" ∧
      snapshot.restaurant.openNow ≠ some false) {line : Line}
    (hoffered : snapshot.offered line.itemId = some item)
    (h : Accepts (priceOrder isPrintable snapshot [line] none {})) : item.minimum ≤ 10 := by
  obtain ⟨priced, hpriced⟩ := (accepts_iff hopen hoffered none {}).mp h
  have hlength := line.bounded.2.2
  have hmin := minimum_le hstocked.regular (priceLine_ok hpriced).1
  omega

/-- **An item that catalog accepts can be ordered exactly if the minimums of its groups fit into
one line.** -/
theorem orderable_iff (isPrintable : Char → Bool) (hstocked : Stocked item)
    (hopen : snapshot.restaurant.status = some "open" ∧
      snapshot.restaurant.openNow ≠ some false)
    (hoffered : snapshot.offered item.id = some item) :
    (∃ line : Line, line.itemId = item.id ∧ ∀ expected config,
      Accepts (priceOrder isPrintable snapshot [line] expected config)) ↔
    item.minimum ≤ 10 := by
  constructor
  · rintro ⟨line, hid, haccepts⟩
    rw [← hid] at hoffered
    exact minimum_le_of_accepts hstocked hopen hoffered (haccepts none {})
  · intro hmin
    obtain ⟨options, hlength, hallowed⟩ := exists_minimum hstocked.regular
    have hfits : options.length ≤ 10 := by omega
    refine ⟨⟨item.id, 1, options, hstocked.regular.short, by decide, by decide, hfits⟩, rfl,
      fun expected config => ?_⟩
    exact (accepts_iff hopen hoffered expected config).mpr
      (exists_priceLine isPrintable 0 hstocked.regular.unique hallowed)

/-! ### Twelve fillings, and a size and two extras -/

def fillings : ModifierGroupIn where
  name := "Fillings"
  minSelect := 6
  maxSelect := 6
  options := List.replicate 6 ⟨"Filling", 0, 0, by decide⟩
  bounded := by decide
  satisfiable := by decide

/-- Two fillings groups, six options to take of each. -/
def thali : ItemIn where
  name := "Thali"
  priceCents := 900
  modifierGroups := [fillings, fillings]
  bounded := by decide

def fillingIds : List String := ["a", "b", "c", "d", "e", "f"]

def thaliIds : Drawn thali.modifierGroups where
  ids := [("left", fillingIds), ("right", fillingIds)]
  options := .cons (by decide) (.cons (by decide) .nil)
  nodup := by decide
  short := by decide

def thaliMenu : Snapshot := menuOf [thali.stored "thali" thaliIds]

def portion : ModifierGroupIn where
  name := "Portion"
  minSelect := 1
  maxSelect := 1
  options := [⟨"Half", -300, 0, by decide⟩, ⟨"Full", 0, 1, by decide⟩]
  bounded := by decide
  satisfiable := by decide

def extras : ModifierGroupIn where
  name := "Extras"
  minSelect := 2
  maxSelect := 3
  rank := 1
  options := [⟨"Raita", 0, 0, by decide⟩, ⟨"No salad", -50, 1, by decide⟩, ⟨"Egg", 50, 2, by decide⟩]
  bounded := by decide
  satisfiable := by decide

/-- A portion and two extras have to be taken. -/
def biryani : ItemIn where
  name := "Biryani"
  priceCents := 1100
  modifierGroups := [portion, extras]
  bounded := by decide

def biryaniIds : Drawn biryani.modifierGroups where
  ids := [("portion", ["half", "full"]), ("extras", ["raita", "salad", "egg"])]
  options := .cons (by decide) (.cons (by decide) .nil)
  nodup := by decide
  short := by decide

def biryaniMenu : Snapshot := menuOf [biryani.stored "biryani" biryaniIds]

theorem biryani_offered :
    biryaniMenu.offered "biryani" = some (biryani.stored "biryani" biryaniIds) := by
  decide +kernel

theorem orderable_biryani : ∃ line : Line, line.itemId = "biryani" ∧ ∀ expected config,
    Accepts (priceOrder (fun _ => true) biryaniMenu [line] expected config) :=
  (orderable_iff (fun _ => true) (.added biryani biryaniIds (by decide)) ⟨rfl, by decide⟩
    biryani_offered).mpr (by decide +kernel)

/-- Each group can be satisfied, and no line can satisfy both. -/
theorem thali_unorderable : ¬ ∀ (isPrintable : Char → Bool) (snapshot : Snapshot) (item : Item),
    Stocked item →
    snapshot.restaurant.status = some "open" ∧ snapshot.restaurant.openNow ≠ some false →
    snapshot.offered item.id = some item →
    ∃ line : Line, line.itemId = item.id ∧ ∀ expected config,
      Accepts (priceOrder isPrintable snapshot [line] expected config) := by
  intro h
  have hstocked : Stocked (thali.stored "thali" thaliIds) := .added thali thaliIds (by decide)
  have hopen : thaliMenu.restaurant.status = some "open" ∧
      thaliMenu.restaurant.openNow ≠ some false := ⟨rfl, by decide⟩
  have hoffered : thaliMenu.offered "thali" = some (thali.stored "thali" thaliIds) := by
    decide +kernel
  obtain ⟨line, hid, haccepts⟩ := h (fun _ => true) thaliMenu _ hstocked hopen hoffered
  have hline : thaliMenu.offered line.itemId = some (thali.stored "thali" thaliIds) := by
    rw [hid]
    exact hoffered
  have hmin := minimum_le_of_accepts hstocked hopen hline (haccepts none {})
  exact absurd hmin (by decide +kernel)

end Pricing
