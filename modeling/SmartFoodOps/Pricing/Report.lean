/-
What a refused order is told: the items that cannot be had, or the choices that were wrong.

* `Item.lookup` — the option that a selection names on the menu as it stands;
* `Snapshot.gone`, `Snapshot.issues` — all that is wrong with a line, however much of it the
  engine looks at;
* `outcome`, `mem_unavailable`, `mem_violations` — the loop over the lines, line by line;
* `chooses`, `outcome_spec` — what the inspection of one line comes to;
* `Reports`, `Plain` — everything is reported, and the orders where nothing hides behind
  something else;
* `reports_iff` — the two are the same.
-/
import SmartFoodOps.Pricing.Reference

namespace Pricing

/-! ### All that is wrong with a line -/

/-- The option that a selection names. -/
def Item.lookup (item : Item) (s : Selection) : Option (ModifierGroup × ModifierOption) :=
  ((Dict.index ModifierGroup.id item.modifierGroups).get s.groupId).bind fun group =>
    (group.options.find? fun o => o.id = s.optionId).map fun option => (group, option)

/-- The options of a group that are asked for. -/
def pickedOf (options : List Selection) (groupId : String) : Finset String :=
  ((options.filter fun s => s.groupId = groupId).map Selection.optionId).toFinset

section

variable (isPrintable : Char → Bool)

/-- What there is to say about the choice of a group's options. -/
def ModifierGroup.issues (options : List Selection) (group : ModifierGroup) : List String :=
  let name := repr isPrintable group.name
  let count : ℤ := (pickedOf options group.id).card
  (if (options.filter fun s => s.groupId = group.id).Nodup then []
    else ["duplicate option in group " ++ name]) ++
  (if count < group.minSelect then
    ["group " ++ name ++ " requires at least " ++ toString group.minSelect ++ " selection(s)"]
    else []) ++
  (if group.maxSelect < count then
    ["group " ++ name ++ " allows at most " ++ toString group.maxSelect ++ " selection(s)"]
    else [])

def Item.issues (item : Item) (options : List Selection) : List String :=
  item.modifierGroups.flatMap (ModifierGroup.issues isPrintable options)

/-- What there is to say about the line of an item that can be had. -/
def Snapshot.issues (snapshot : Snapshot) (line : Line) : List String :=
  ((snapshot.offered line.itemId).map fun item => item.issues isPrintable line.options).getD []

end

/-- The line's item is unavailable, or the menu no longer has what the line names. -/
def Snapshot.gone (snapshot : Snapshot) (line : Line) : Bool :=
  (snapshot.offered line.itemId).all fun item => line.options.any fun s => (item.lookup s).isNone

/-- A line that is gone is noticed unless an option is repeated before the first one that the menu
lacks. -/
def Snapshot.Noticed (snapshot : Snapshot) (line : Line) : Prop :=
  snapshot.gone line = true ∧ ∀ item, snapshot.offered line.itemId = some item →
    (line.options.takeWhile fun s => (item.lookup s).isSome).Nodup

/-- The place of a line in a report. -/
def fieldOf (index : ℕ) : String := "lines[" ++ toString index ++ "].options"

theorem fieldOf_injective : Function.Injective fieldOf := by
  intro m n h
  have hdigits : Nat.toDigits 10 m = Nat.toDigits 10 n := by
    have hsuffix := (String.append_left_inj _).mp h
    have hrepr := (String.append_right_inj _).mp hsuffix
    rw [← Nat.toList_repr, ← Nat.toList_repr]
    exact congrArg String.toList hrepr
  rw [← Nat.ofDigitChars_ten_toDigits (n := m), hdigits, Nat.ofDigitChars_ten_toDigits]

/-! ### Line by line -/

section

variable {isPrintable : Char → Bool} {snapshot : Snapshot} {lines : List Line} {line : Line}
  {entries : List (Line × ℕ)} {entry : Line × ℕ} {p : Progress} {item : Item} {index : ℕ}

variable (isPrintable snapshot) in
/-- What the inspection of a line comes to. -/
def outcome (entry : Line × ℕ) : Except Refusal PricedLine :=
  match snapshot.offered entry.1.itemId with
  | none => .error .unavailable
  | some item => priceLine isPrintable entry.2 entry.1 item

theorem inspect_unavailable (h : outcome isPrintable snapshot entry = .error .unavailable) :
    inspect isPrintable snapshot p entry =
      { p with unavailable := insert entry.1.itemId p.unavailable } := by
  unfold outcome at h
  unfold inspect
  dsimp only
  rcases hitem : snapshot.offered entry.1.itemId with _ | item
  · rfl
  · rw [hitem] at h
    dsimp only at h ⊢
    rw [h]

theorem inspect_violation {v : Violation}
    (h : outcome isPrintable snapshot entry = .error (.violation v)) :
    inspect isPrintable snapshot p entry = { p with violations := p.violations ++ [v] } := by
  unfold outcome at h
  unfold inspect
  dsimp only
  rcases hitem : snapshot.offered entry.1.itemId with _ | item
  · rw [hitem] at h
    cases h
  · rw [hitem] at h
    dsimp only at h ⊢
    rw [h]

theorem inspect_ok {priced : PricedLine} (h : outcome isPrintable snapshot entry = .ok priced) :
    ∃ item, snapshot.offered entry.1.itemId = some item ∧
      priceLine isPrintable entry.2 entry.1 item = .ok priced ∧
      inspect isPrintable snapshot p entry =
        { p with priced := p.priced ++ [priced], currency := item.currency } := by
  unfold outcome at h
  unfold inspect
  dsimp only
  rcases hitem : snapshot.offered entry.1.itemId with _ | item
  · rw [hitem] at h
    cases h
  · rw [hitem] at h
    dsimp only at h ⊢
    rw [h]
    exact ⟨item, rfl, h, rfl⟩

variable (isPrintable snapshot entries p) in
/-- **The loop over the lines**: an item is reported if the inspection of one of its lines says
so. -/
theorem mem_unavailable {itemId : String} :
    itemId ∈ (entries.foldl (inspect isPrintable snapshot) p).unavailable ↔
      itemId ∈ p.unavailable ∨ ∃ entry ∈ entries, entry.1.itemId = itemId ∧
        outcome isPrintable snapshot entry = .error .unavailable := by
  induction entries generalizing p with
  | nil => simp
  | cons entry rest ih =>
    rw [List.foldl_cons, ih]
    rcases h : outcome isPrintable snapshot entry with refusal | priced
    · cases refusal with
      | unavailable =>
        rw [inspect_unavailable h]
        simp only [Finset.mem_insert, List.mem_cons, exists_eq_or_imp, h, and_true]
        rw [eq_comm, or_assoc, or_left_comm]
      | violation v =>
        rw [inspect_violation h]
        simp [h]
    · obtain ⟨item, -, -, hinspect⟩ := inspect_ok (p := p) h
      rw [hinspect]
      simp [h]

variable (isPrintable snapshot entries p) in
/-- And a violation is reported if the inspection of a line finds it. -/
theorem mem_violations {v : Violation} :
    v ∈ (entries.foldl (inspect isPrintable snapshot) p).violations ↔
      v ∈ p.violations ∨ ∃ entry ∈ entries,
        outcome isPrintable snapshot entry = .error (.violation v) := by
  induction entries generalizing p with
  | nil => simp
  | cons entry rest ih =>
    rw [List.foldl_cons, ih]
    rcases h : outcome isPrintable snapshot entry with refusal | priced
    · cases refusal with
      | unavailable =>
        rw [inspect_unavailable h]
        simp [h]
      | violation v' =>
        rw [inspect_violation h]
        simp only [List.mem_append, List.mem_cons, List.not_mem_nil, or_false, exists_eq_or_imp, h,
          Except.error.injEq, Refusal.violation.injEq]
        rw [eq_comm (a := v), or_assoc]
    · obtain ⟨item, -, -, hinspect⟩ := inspect_ok (p := p) h
      rw [hinspect]
      simp [h]

/-! ### A line -/

theorem lookup_eq_some {s : Selection} {group : ModifierGroup} {option : ModifierOption}
    (h : item.lookup s = some (group, option)) :
    group ∈ item.modifierGroups ∧ group.id = s.groupId ∧ option ∈ group.options ∧
      option.id = s.optionId := by
  obtain ⟨found, hget, hmap⟩ := Option.bind_eq_some_iff.mp h
  obtain ⟨option', hfind, hpair⟩ := Option.map_eq_some_iff.mp hmap
  obtain ⟨rfl, rfl⟩ := Prod.mk.inj hpair
  obtain ⟨hmem, hid⟩ := Dict.mem_of_get_index hget
  exact ⟨hmem, hid, List.mem_of_find?_eq_some hfind, by simpa using List.find?_some hfind⟩

/-- One more selection. -/
theorem choose_cons {field : String} {s : Selection} {rest : List Selection} {p : Picks} :
    choose isPrintable field item (s :: rest) p =
      match item.lookup s with
      | none => .error .unavailable
      | some (group, option) =>
        if s.optionId ∈ p.picked group.id then
          .error (.violation ⟨field, "duplicate option in group " ++ repr isPrintable group.name⟩)
        else choose isPrintable field item rest (p.add group option) := by
  unfold Item.lookup
  rw [choose]
  rcases (Dict.index ModifierGroup.id item.modifierGroups).get s.groupId with _ | group
  · rfl
  · dsimp only [Option.bind_some]
    generalize group.options.find? (fun o => decide (o.id = s.optionId)) = found
    rcases found with _ | option
    · rfl
    · rfl

/-- What the loop over the selections comes to, after those of `done`. -/
inductive Chooses (isPrintable : Char → Bool) (field : String) (item : Item)
    (done options : List Selection) : Except Refusal Picks → Prop
  | ok {q : Picks} (found : ∀ s ∈ options, (item.lookup s).isSome = true)
    (picked : Picked item (done ++ options) q) : Chooses isPrintable field item done options (.ok q)
  | unavailable (lacks : ∃ s ∈ options, item.lookup s = none)
    (nodup : (done ++ options.takeWhile fun s => (item.lookup s).isSome).Nodup) :
    Chooses isPrintable field item done options (.error .unavailable)
  | duplicate {group : ModifierGroup} (mem : group ∈ item.modifierGroups)
    (first : ¬ (done ++ options.takeWhile fun s => (item.lookup s).isSome).Nodup)
    (repeats : ¬ ((done ++ options).filter fun s => s.groupId = group.id).Nodup) :
    Chooses isPrintable field item done options (.error (.violation
      ⟨field, "duplicate option in group " ++ repr isPrintable group.name⟩))

variable (isPrintable) in
/-- The induction is over the selections that are left; the picks are those of `done`. -/
theorem chooses {field : String} {done options : List Selection} {p : Picks}
    (h : Picked item done p) :
    Chooses isPrintable field item done options (choose isPrintable field item options p) := by
  induction options generalizing done p with
  | nil => exact .ok (by simp) (by rwa [List.append_nil])
  | cons s rest ih =>
    rw [choose_cons]
    rcases hs : item.lookup s with _ | ⟨group, option⟩
    · refine .unavailable ⟨s, List.mem_cons_self, hs⟩ ?_
      rw [List.takeWhile_cons_of_neg (by simp [hs]), List.append_nil]
      exact h.nodup
    · obtain ⟨hmem, hg, hoption, ho⟩ := lookup_eq_some hs
      have htake : (s :: rest).takeWhile (fun s => (item.lookup s).isSome) =
          s :: rest.takeWhile fun s => (item.lookup s).isSome :=
        List.takeWhile_cons_of_pos (by simp [hs])
      dsimp only
      split
      · next hagain =>
        rw [hg, h.mem_picked] at hagain
        refine .duplicate hmem ?_ ?_
        · rw [htake]
          exact fun hnodup => (List.nodup_append.mp hnodup).2.2 s hagain s List.mem_cons_self rfl
        · intro hnodup
          rw [List.filter_append] at hnodup
          have hin : ∀ l : List Selection, s ∈ l → s ∈ l.filter fun s => s.groupId = group.id :=
            fun l hl => List.mem_filter.mpr ⟨hl, decide_eq_true hg.symm⟩
          exact (List.nodup_append.mp hnodup).2.2 s (hin _ hagain) s (hin _ List.mem_cons_self) rfl
      · next hfresh =>
        rw [hg, h.mem_picked] at hfresh
        -- the selection is one of those done, for the rest
        have hrest := ih (h.add hmem hoption hg ho hfresh)
        have hdone := List.append_cons done s rest
        have htaken := List.append_cons done s (rest.takeWhile fun s => (item.lookup s).isSome)
        rw [← htake] at htaken
        revert hrest
        generalize choose isPrintable field item rest (p.add group option) = result
        intro hrest
        cases hrest with
        | ok hfound hpicked =>
          refine .ok (List.forall_mem_cons.mpr ⟨by simp [hs], hfound⟩) ?_
          rwa [hdone]
        | unavailable hlacks hnodup =>
          obtain ⟨s', hs', hnone⟩ := hlacks
          exact .unavailable ⟨s', List.mem_cons_of_mem s hs', hnone⟩ (by rwa [htaken])
        | duplicate hmem' hfirst hrepeats =>
          exact .duplicate hmem' (by rwa [htaken]) (by rwa [hdone])

/-- What the inspection of a line comes to. -/
inductive Inspected (isPrintable : Char → Bool) (snapshot : Snapshot) (entry : Line × ℕ) :
    Except Refusal PricedLine → Prop
  | ok {priced : PricedLine} (there : snapshot.gone entry.1 = false)
    (fine : snapshot.issues isPrintable entry.1 = []) :
    Inspected isPrintable snapshot entry (.ok priced)
  | unavailable (noticed : snapshot.Noticed entry.1) :
    Inspected isPrintable snapshot entry (.error .unavailable)
  | violation {issue : String} (unnoticed : ¬ snapshot.Noticed entry.1)
    (mem : snapshot.gone entry.1 = false → issue ∈ snapshot.issues isPrintable entry.1) :
    Inspected isPrintable snapshot entry (.error (.violation ⟨fieldOf entry.2, issue⟩))

theorem mem_issues {group : ModifierGroup} {options : List Selection} {issue : String}
    (hgroup : group ∈ item.modifierGroups) (h : issue ∈ group.issues isPrintable options) :
    issue ∈ item.issues isPrintable options := List.mem_flatMap.mpr ⟨group, hgroup, h⟩

/-- The code counts the options of a group as they are counted here. -/
theorem groupIssue_eq {picks : Picks} {options : List Selection} {group : ModifierGroup}
    (h : Picked item options picks) :
    (groupIssue isPrintable picks group = none → group.issues isPrintable options = []) ∧
      ∀ issue, groupIssue isPrintable picks group = some issue →
        issue ∈ group.issues isPrintable options := by
  have hpicked : picks.picked group.id = pickedOf options group.id := h.picked group.id
  have hnodup : (options.filter fun s => s.groupId = group.id).Nodup := h.nodup.filter _
  unfold groupIssue ModifierGroup.issues
  dsimp only
  rw [hpicked, if_pos hnodup, List.nil_append]
  split
  · simp
  · split
    · simp
    · simp

variable (isPrintable snapshot) in
/-- **One line.** -/
theorem inspected (entry : Line × ℕ) :
    Inspected isPrintable snapshot entry (outcome isPrintable snapshot entry) := by
  rcases hoffered : snapshot.offered entry.1.itemId with _ | item
  · have hgone : snapshot.gone entry.1 = true := by
      unfold Snapshot.gone
      rw [hoffered]
      rfl
    have hout : outcome isPrintable snapshot entry = .error .unavailable := by
      unfold outcome
      rw [hoffered]
    rw [hout]
    refine .unavailable ⟨hgone, fun item hitem => ?_⟩
    rw [hoffered] at hitem
    cases hitem
  · have hgone : snapshot.gone entry.1 = entry.1.options.any fun s => (item.lookup s).isNone := by
      unfold Snapshot.gone
      rw [hoffered]
      rfl
    have hissues : snapshot.issues isPrintable entry.1 = item.issues isPrintable entry.1.options := by
      unfold Snapshot.issues
      rw [hoffered]
      rfl
    have hnoticed : snapshot.Noticed entry.1 ↔ snapshot.gone entry.1 = true ∧
        (entry.1.options.takeWhile fun s => (item.lookup s).isSome).Nodup := by
      unfold Snapshot.Noticed
      rw [hoffered]
      simp
    have hout : outcome isPrintable snapshot entry = priceLine isPrintable entry.2 entry.1 item := by
      unfold outcome
      rw [hoffered]
    have hchooses : Chooses isPrintable (fieldOf entry.2) item [] entry.1.options
        (choose isPrintable (fieldOf entry.2) item entry.1.options .empty) :=
      chooses isPrintable picked_empty
    have hfield : "lines[" ++ toString entry.2 ++ "].options" = fieldOf entry.2 := rfl
    rw [hout]
    unfold priceLine
    dsimp only
    rw [hfield]
    revert hchooses
    generalize choose isPrintable (fieldOf entry.2) item entry.1.options .empty = result
    intro hchooses
    cases hchooses with
    | unavailable hlacks hnodup =>
      rw [List.nil_append] at hnodup
      refine .unavailable (hnoticed.mpr ⟨?_, hnodup⟩)
      obtain ⟨s, hs, hnone⟩ := hlacks
      rw [hgone]
      exact List.any_eq_true.mpr ⟨s, hs, by simp [hnone]⟩
    | @duplicate group hmem hfirst hrepeats =>
      rw [List.nil_append] at hfirst hrepeats
      refine .violation (fun h => hfirst (hnoticed.mp h).2) fun _ => ?_
      rw [hissues]
      refine mem_issues hmem ?_
      unfold ModifierGroup.issues
      dsimp only
      rw [if_neg hrepeats]
      simp
    | @ok picks hfound hpicked =>
      rw [List.nil_append] at hpicked
      have hthere : snapshot.gone entry.1 = false := by
        rw [hgone]
        refine List.any_eq_false.mpr fun s hs => ?_
        simp [Option.isSome_iff_ne_none.mp (hfound s hs)]
      have hunnoticed : ¬ snapshot.Noticed entry.1 := by
        rw [hnoticed, hthere]
        simp
      dsimp only
      split
      · next issue hissue =>
        obtain ⟨group, hgroup, hsome⟩ := List.exists_of_findSome?_eq_some hissue
        refine .violation hunnoticed fun _ => ?_
        rw [hissues]
        exact mem_issues hgroup ((groupIssue_eq hpicked).2 issue hsome)
      · next hnone =>
        refine .ok hthere ?_
        rw [hissues]
        refine List.flatMap_eq_nil_iff.mpr fun group hgroup => ?_
        exact (groupIssue_eq hpicked).1 (List.findSome?_eq_none_iff.mp hnone group hgroup)

/-! ### A report -/

/-- The items of the lines that are gone. -/
def Snapshot.goneIds (snapshot : Snapshot) (lines : List Line) : Finset String :=
  ((lines.filter snapshot.gone).map Line.itemId).toFinset

variable (isPrintable snapshot lines) in
/-- All that is wrong is reported at once: the items that are gone, and if there are none then the
violations, each of them at its line. -/
structure Reports (result : Except PricingError PricedOrder) : Prop where
  unavailable : (∃ line ∈ lines, snapshot.gone line = true) →
    result = .error (.itemUnavailable (sorted (snapshot.goneIds lines)))
  violations : (∀ line ∈ lines, snapshot.gone line = false) →
    (∃ line ∈ lines, snapshot.issues isPrintable line ≠ []) →
    ∃ details, result = .error (.invalidSelection details) ∧
      ∀ entry ∈ lines.zipIdx, ∀ issue ∈ snapshot.issues isPrintable entry.1,
        ⟨fieldOf entry.2, issue⟩ ∈ details

variable (isPrintable snapshot lines) in
/-- Nothing hides behind something else. -/
structure Plain : Prop where
  /-- An item that is gone has a line where this is noticed. -/
  noticed : ∀ line ∈ lines, snapshot.gone line = true →
    ∃ line' ∈ lines, line'.itemId = line.itemId ∧ snapshot.Noticed line'
  /-- When nothing is gone, there is one thing to say about a line, if there is any. -/
  single : (∀ line ∈ lines, snapshot.gone line = false) → ∀ line ∈ lines,
    ∀ issue ∈ snapshot.issues isPrintable line, ∀ issue' ∈ snapshot.issues isPrintable line,
      issue = issue'

variable (isPrintable) in
/-- Whether anything is wrong decides what kind of report there is. -/
theorem priceOrder_error (hopen : snapshot.restaurant.status = some "open" ∧
      snapshot.restaurant.openNow ≠ some false) (hlines : lines ≠ [])
    (expected : Option ℤ) (config : PricingConfig) :
    let found := lines.zipIdx.foldl (inspect isPrintable snapshot) .start
    (found.unavailable ≠ ∅ → priceOrder isPrintable snapshot lines expected config =
      .error (.itemUnavailable (sorted found.unavailable))) ∧
    (found.unavailable = ∅ → found.violations ≠ [] →
      priceOrder isPrintable snapshot lines expected config =
        .error (.invalidSelection found.violations)) ∧
    ∀ ids, priceOrder isPrintable snapshot lines expected config = .error (.itemUnavailable ids) →
      ids = sorted found.unavailable := by
  intro found
  have hstart : ¬ (snapshot.restaurant.status ≠ some "open" ∨
      snapshot.restaurant.openNow = some false) := by
    rw [not_or, not_not]
    exact hopen
  have hfound : lines.zipIdx.foldl (inspect isPrintable snapshot) .start = found := rfl
  unfold priceOrder
  dsimp only
  rw [if_neg hstart, if_neg hlines, hfound]
  refine ⟨fun h => if_pos h, fun h h' => ?_, fun ids => ?_⟩
  · rw [if_neg (not_not.mpr h), if_pos h']
  · split
    · rintro ⟨⟩
      rfl
    · split
      · intro h
        cases h
      · split
        · intro h
          cases h
        · intro h
          cases h

/-- What has been found when all the lines have been looked at. -/
theorem mem_found (itemId : String) :
    itemId ∈ (lines.zipIdx.foldl (inspect isPrintable snapshot) .start).unavailable ↔
      ∃ line ∈ lines, line.itemId = itemId ∧ snapshot.Noticed line := by
  rw [mem_unavailable]
  constructor
  · rintro (h | ⟨entry, hentry, hid, hout⟩)
    · cases h
    · have hinspected := inspected isPrintable snapshot entry
      rw [hout] at hinspected
      cases hinspected with
      | unavailable hnoticed =>
        exact ⟨entry.1, List.fst_mem_of_mem_zipIdx hentry, hid, hnoticed⟩
  · rintro ⟨line, hline, hid, hnoticed⟩
    obtain ⟨i, hi, rfl⟩ := List.mem_iff_getElem.mp hline
    refine .inr ⟨(lines[i], i), List.mem_zipIdx_iff_getElem?.mpr (by simp [hi]), hid, ?_⟩
    have hinspected := inspected isPrintable snapshot (lines[i], i)
    revert hinspected
    generalize outcome isPrintable snapshot (lines[i], i) = result
    intro hinspected
    cases hinspected with
    | ok hthere =>
      rw [hnoticed.1] at hthere
      cases hthere
    | unavailable => rfl
    | violation hunnoticed => exact absurd hnoticed hunnoticed

theorem sorted_injective {α : Type} [LinearOrder α] : Function.Injective (@sorted α _) := by
  intro A B h
  have hA := Finset.sort_toFinset A (· ≤ ·)
  have hB := Finset.sort_toFinset B (· ≤ ·)
  rw [← hA, ← hB]
  exact congrArg List.toFinset h

theorem mem_goneIds {itemId : String} : itemId ∈ snapshot.goneIds lines ↔
    ∃ line ∈ lines, snapshot.gone line = true ∧ line.itemId = itemId := by
  unfold Snapshot.goneIds
  simp only [List.mem_toFinset, List.mem_map, List.mem_filter]
  constructor
  · rintro ⟨line, ⟨hmem, hgone⟩, hid⟩
    exact ⟨line, hmem, hgone, hid⟩
  · rintro ⟨line, hmem, hgone, hid⟩
    exact ⟨line, ⟨hmem, hgone⟩, hid⟩

/-- A line that is there and has something wrong is reported with one of its issues. -/
theorem exists_reported {entry : Line × ℕ} (hthere : snapshot.gone entry.1 = false)
    (hwrong : snapshot.issues isPrintable entry.1 ≠ []) :
    ∃ issue ∈ snapshot.issues isPrintable entry.1,
      outcome isPrintable snapshot entry = .error (.violation ⟨fieldOf entry.2, issue⟩) := by
  have hinspected := inspected isPrintable snapshot entry
  revert hinspected
  generalize outcome isPrintable snapshot entry = result
  intro hinspected
  cases hinspected with
  | ok _ hfine => exact absurd hfine hwrong
  | unavailable hnoticed =>
    have hgone := hnoticed.1
    rw [hthere] at hgone
    cases hgone
  | violation _ hmem => exact ⟨_, hmem hthere, rfl⟩

theorem field_of_violation {entry : Line × ℕ} {v : Violation}
    (h : outcome isPrintable snapshot entry = .error (.violation v)) :
    v.field = fieldOf entry.2 := by
  have hinspected := inspected isPrintable snapshot entry
  generalize outcome isPrintable snapshot entry = result at h hinspected
  cases hinspected with
  | ok => cases h
  | unavailable => cases h
  | violation =>
    cases h
    rfl

/-- An entry of the report is about the line at its place. -/
theorem reported_once {entry : Line × ℕ} {issue : String} (hentry : entry ∈ lines.zipIdx)
    (h : ⟨fieldOf entry.2, issue⟩ ∈
      (lines.zipIdx.foldl (inspect isPrintable snapshot) .start).violations) :
    outcome isPrintable snapshot entry = .error (.violation ⟨fieldOf entry.2, issue⟩) := by
  rcases (mem_violations ..).mp h with h | ⟨entry', hentry', hout⟩
  · cases h
  · have hindex := fieldOf_injective (field_of_violation hout)
    have hline : entry.1 = entry'.1 := by
      have hget := List.mem_zipIdx_iff_getElem?.mp hentry
      rwa [hindex, List.mem_zipIdx_iff_getElem?.mp hentry', Option.some.injEq, eq_comm] at hget
    have hsame : entry = entry' := Prod.ext hline hindex
    rwa [← hsame] at hout

theorem found_empty (h : ∀ line ∈ lines, snapshot.gone line = false) :
    (lines.zipIdx.foldl (inspect isPrintable snapshot) .start).unavailable = ∅ := by
  refine Finset.eq_empty_of_forall_notMem fun itemId hmem => ?_
  obtain ⟨line, hline, -, hnoticed⟩ := (mem_found itemId).mp hmem
  have hgone := hnoticed.1
  rw [h line hline] at hgone
  cases hgone

theorem found_some {entry : Line × ℕ} (hentry : entry ∈ lines.zipIdx)
    (hthere : snapshot.gone entry.1 = false) (hwrong : snapshot.issues isPrintable entry.1 ≠ []) :
    (lines.zipIdx.foldl (inspect isPrintable snapshot) .start).violations ≠ [] := by
  obtain ⟨reported, -, hout⟩ := exists_reported hthere hwrong
  exact List.ne_nil_of_mem ((mem_violations ..).mpr (.inr ⟨entry, hentry, hout⟩))

theorem plain_of_reports (hopen : snapshot.restaurant.status = some "open" ∧
      snapshot.restaurant.openNow ≠ some false) (hlines : lines ≠ []) {expected : Option ℤ}
    {config : PricingConfig}
    (h : Reports isPrintable snapshot lines
      (priceOrder isPrintable snapshot lines expected config)) :
    Plain isPrintable snapshot lines := by
  obtain ⟨-, hviolations, hsorted⟩ :=
    priceOrder_error isPrintable hopen hlines expected config
  constructor
  · intro line hline hgone
    have hids := sorted_injective (hsorted _ (h.unavailable ⟨line, hline, hgone⟩))
    have hmem : line.itemId ∈ snapshot.goneIds lines := mem_goneIds.mpr ⟨line, hline, hgone, rfl⟩
    rw [hids] at hmem
    exact (mem_found _).mp hmem
  · intro hthere line hline issue hissue issue' hissue'
    obtain ⟨details, hresult, hall⟩ :=
      h.violations hthere ⟨line, hline, List.ne_nil_of_mem hissue⟩
    obtain ⟨i, hi, rfl⟩ := List.mem_iff_getElem.mp hline
    have hentry : (lines[i], i) ∈ lines.zipIdx := List.mem_zipIdx_iff_getElem?.mpr (by simp [hi])
    have hsome := found_some hentry (hthere _ hline) (List.ne_nil_of_mem hissue)
    rw [hviolations (found_empty hthere) hsome, Except.error.injEq,
      PricingError.invalidSelection.injEq] at hresult
    subst hresult
    -- the inspection of a line ends with one issue
    have hone := reported_once hentry (hall _ hentry issue hissue)
    have hother := reported_once hentry (hall _ hentry issue' hissue')
    rw [hone] at hother
    injections

theorem reports_of_plain (hopen : snapshot.restaurant.status = some "open" ∧
      snapshot.restaurant.openNow ≠ some false) (hlines : lines ≠ []) {expected : Option ℤ}
    {config : PricingConfig} (h : Plain isPrintable snapshot lines) :
    Reports isPrintable snapshot lines
      (priceOrder isPrintable snapshot lines expected config) := by
  obtain ⟨hunavailable, hviolations, -⟩ :=
    priceOrder_error isPrintable hopen hlines expected config
  constructor
  · rintro ⟨line, hline, hgone⟩
    have hids : (lines.zipIdx.foldl (inspect isPrintable snapshot) .start).unavailable =
        snapshot.goneIds lines := by
      ext itemId
      rw [mem_found, mem_goneIds]
      constructor
      · rintro ⟨line', hline', hid, hnoticed⟩
        exact ⟨line', hline', hnoticed.1, hid⟩
      · rintro ⟨line', hline', hgone', hid⟩
        obtain ⟨line'', hline'', hid', hnoticed⟩ := h.noticed line' hline' hgone'
        exact ⟨line'', hline'', hid'.trans hid, hnoticed⟩
    rw [← hids]
    refine hunavailable ?_
    rw [hids]
    exact Finset.ne_empty_of_mem (mem_goneIds.mpr ⟨line, hline, hgone, rfl⟩)
  · rintro hthere ⟨line, hline, hwrong⟩
    obtain ⟨i, hi, rfl⟩ := List.mem_iff_getElem.mp hline
    have hmem : (lines[i], i) ∈ lines.zipIdx := List.mem_zipIdx_iff_getElem?.mpr (by simp [hi])
    have hsome := found_some hmem (hthere _ hline) hwrong
    refine ⟨_, hviolations (found_empty hthere) hsome, fun entry hentry issue hissue => ?_⟩
    have hmem := List.fst_mem_of_mem_zipIdx hentry
    obtain ⟨reported, hreported, hout⟩ :=
      exists_reported (hthere _ hmem) (List.ne_nil_of_mem hissue)
    rw [h.single hthere entry.1 hmem issue hissue reported hreported]
    exact (mem_violations ..).mpr (.inr ⟨entry, hentry, hout⟩)

/-- **A cart is told all that is wrong with it exactly if nothing hides behind something else.** -/
theorem reports_iff (isPrintable : Char → Bool) (hopen : snapshot.restaurant.status = some "open" ∧
      snapshot.restaurant.openNow ≠ some false) (hlines : lines ≠ [])
    (expected : Option ℤ) (config : PricingConfig) :
    Reports isPrintable snapshot lines
      (priceOrder isPrintable snapshot lines expected config) ↔
    Plain isPrintable snapshot lines :=
  ⟨plain_of_reports hopen hlines, reports_of_plain hopen hlines⟩

end

/-! ### Two groups to choose from -/

def spice : ModifierGroup :=
  ⟨"spice", "Spice", 1, 1, [⟨"mild", "Mild", 0⟩, ⟨"hot", "Hot", 0⟩]⟩

def nihari : Item := ⟨"nihari", "Nihari", 1299, "USD", true, [size, spice]⟩

def nihariKitchen : Snapshot where
  restaurant := { id := "r", name := "Kitchen", status := some "open" }
  items := [nihari]

/-- A line with some of the choices made. -/
def nihariLine (options : List Selection) (h : options.length ≤ 10) : Line where
  itemId := "nihari"
  qty := 1
  options := options
  short := by decide
  bounded := ⟨le_refl 1, by decide, h⟩

/-- One of them without its size, the other without its spice. -/
def nihariLines : List Line :=
  [nihariLine [⟨"spice", "hot", by decide⟩] (by decide),
    nihariLine [⟨"size", "small", by decide⟩] (by decide)]

/-- The size and the spice are each missing from a line, and the report names both. -/
theorem reports_missing_choices : Reports (fun _ => true) nihariKitchen nihariLines
    (priceOrder (fun _ => true) nihariKitchen nihariLines none {}) := by
  refine (reports_iff (fun _ => true) ⟨rfl, by decide⟩ (List.cons_ne_nil _ _) none {}).mpr ?_
  have hissues : nihariLines.map (nihariKitchen.issues (fun _ => true)) =
      [["group 'Size' requires at least 1 selection(s)"],
        ["group 'Spice' requires at least 1 selection(s)"]] := by decide +kernel
  constructor
  · intro line hline hgone
    have hthere : ∀ line ∈ nihariLines, nihariKitchen.gone line = false := by decide
    rw [hthere line hline] at hgone
    cases hgone
  · intro _ line hline issue hissue issue' hissue'
    have hone : (nihariKitchen.issues (fun _ => true) line).length = 1 := by
      have hlengths : ∀ issues ∈ nihariLines.map (nihariKitchen.issues (fun _ => true)),
          issues.length = 1 := by
        rw [hissues]
        decide
      exact hlengths _ (List.mem_map_of_mem hline)
    obtain ⟨only, honly⟩ := List.length_eq_one_iff.mp hone
    rw [honly, List.mem_singleton] at hissue hissue'
    rw [hissue, hissue']

/-- The size and the spice are missing, and the report is about the size. -/
theorem spice_hidden : ¬ ∀ (isPrintable : Char → Bool) (snapshot : Snapshot) (lines : List Line)
    (expected : Option ℤ) (config : PricingConfig),
    snapshot.restaurant.status = some "open" ∧ snapshot.restaurant.openNow ≠ some false →
    lines ≠ [] →
    Reports isPrintable snapshot lines
      (priceOrder isPrintable snapshot lines expected config) := by
  intro h
  have hplain := plain_of_reports ⟨rfl, by decide⟩ (List.cons_ne_nil _ _)
    (h (fun _ => true) nihariKitchen [nihariLine [] (by decide)] none {} ⟨rfl, by decide⟩
      (List.cons_ne_nil _ _))
  have hissues : nihariKitchen.issues (fun _ => true) (nihariLine [] (by decide)) =
      ["group 'Size' requires at least 1 selection(s)",
        "group 'Spice' requires at least 1 selection(s)"] := by decide +kernel
  have hthere : ∀ line ∈ [nihariLine [] (by decide)], nihariKitchen.gone line = false := by
    intro line hline
    rw [List.mem_singleton.mp hline]
    decide
  have hsame := hplain.single hthere _ List.mem_cons_self
    "group 'Size' requires at least 1 selection(s)" (by rw [hissues]; exact List.mem_cons_self)
    "group 'Spice' requires at least 1 selection(s)"
    (by rw [hissues]; exact List.mem_cons_of_mem _ List.mem_cons_self)
  exact absurd hsame (by decide)

end Pricing
