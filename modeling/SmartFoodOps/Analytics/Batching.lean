/-
Batches of events, and the events one by one.

* `find_upsertFacts` — what the statements of a batch leave for an order is what its events
  leave one after the other, whatever statement each row is in;
* `same_facts`, `same_items`, `same_views`, `same_assistantFacts` — for each projector, what
  batches leave is what their rows leave one by one;
* `Statement.Legal` — no key twice in a statement that updates on a conflict;
* `batching_invisible` — for all four, however the events are cut into batches.
-/
import SmartFoodOps.Analytics.Facts
import Mathlib.Algebra.BigOperators.Group.List.Basic

open Keyed
open Order.Emission (Line Payload)
open Dispatch (OrderId)

namespace Analytics

/-! ### Order facts -/

/-- What a row does to the fact that is there. -/
def factAfter (row : OrderId × FactPatch) (old : Option OrderFact) : Option OrderFact :=
  some ⟨row.1, row.2.onto (old.elim blank OrderFact.cells)⟩

theorem find_upsertFact (t : OrderFacts) (row : OrderId × FactPatch) (k : OrderId) :
    (upsertFact t row).find k = if row.1 = k then factAfter row (t.find k) else t.find k := by
  have hfind := @Table.find_insertOr _ _ _ _ t k ⟨row.1, row.2.onto blank⟩
    (fun old => ⟨row.1, row.2.onto old.cells⟩) fun _ _ => rfl
  refine hfind.trans ?_
  by_cases hk : row.1 = k
  · rw [if_pos hk, if_pos hk]
    cases t.find k <;> rfl
  · rw [if_neg hk, if_neg hk]

/-- Patches of one order, one by one. -/
theorem foldl_factAfter {k : OrderId} (ps : List FactPatch) (hps : ps ≠ [])
    (old : Option OrderFact) :
    (ps.map fun p => (k, p)).foldl (fun o row => factAfter row o) old =
      some ⟨k, ps.foldl (fun r p => p.onto r) (old.elim blank OrderFact.cells)⟩ := by
  induction ps generalizing old with
  | nil => exact absurd rfl hps
  | cons p ps ih =>
    rw [List.map_cons, List.foldl_cons, List.foldl_cons]
    by_cases hnil : ps = []
    · rw [hnil]
      rfl
    · rw [ih hnil]
      rfl

/-- The patches that a list of rows has for an order. -/
def patchesOf (k : OrderId) (rows : List (OrderId × FactPatch)) : List FactPatch :=
  (rows.filter fun row => row.1 = k).map Prod.snd

theorem filter_eq_map_patchesOf {k : OrderId} {rows : List (OrderId × FactPatch)} :
    (rows.filter fun row => row.1 = k) = (patchesOf k rows).map fun p => (k, p) := by
  unfold patchesOf
  rw [List.map_map]
  refine (List.map_id _).symm.trans (List.map_congr_left fun row hrow => ?_)
  have hk : row.1 = k := of_decide_eq_true (List.mem_filter.mp hrow).2
  rw [← hk]
  rfl

/-- Rows one by one. -/
theorem find_foldl_upsertFact (t : OrderFacts) (rows : List (OrderId × FactPatch)) (k : OrderId) :
    (rows.foldl upsertFact t).find k = if patchesOf k rows = [] then t.find k else
      some ⟨k, (patchesOf k rows).foldl (fun r p => p.onto r)
        ((t.find k).elim blank OrderFact.cells)⟩ := by
  rw [Table.find_foldl find_upsertFact, filter_eq_map_patchesOf]
  split
  · next h =>
    rw [h]
    rfl
  · next h => exact foldl_factAfter _ h _

/-- The merged row of an order. -/
theorem get_merged {k : OrderId} {rows : List (OrderId × FactPatch)} :
    (Dict.gather Prod.fst (fun row merged => row.2.above (merged.getD .empty)) rows).get k =
      if patchesOf k rows = [] then none
      else some ((patchesOf k rows).foldl (fun q p => p.above q) .empty) := by
  have hfold : ∀ (ps : List FactPatch) (o : Option FactPatch), ps ≠ [] →
      (ps.map fun p => (k, p)).foldl
        (fun o row => some (row.2.above (o.getD .empty))) o =
      some (ps.foldl (fun q p => p.above q) (o.getD .empty)) := by
    intro ps
    induction ps with
    | nil => exact fun _ h => absurd rfl h
    | cons p ps ih =>
      intro o _
      rw [List.map_cons, List.foldl_cons, List.foldl_cons]
      by_cases hnil : ps = []
      · rw [hnil]
        rfl
      · rw [ih _ hnil]
        rfl
  rw [Dict.get_gather, filter_eq_map_patchesOf]
  split
  · next h =>
    rw [h]
    rfl
  · next h => exact hfold _ none h

/-- Statements are executed as their rows, in some order of the orders. -/
theorem find_upsertFacts (t : OrderFacts) (d : Dict OrderId FactPatch) (k : OrderId) :
    (upsertFacts t d.entries).find k =
      (d.get k).elim (t.find k) fun p => factAfter (k, p) (t.find k) := by
  unfold upsertFacts
  rw [← List.foldl_flatten, Table.find_foldl find_upsertFact]
  have hperm : ((factStatements d.entries).flatten.filter fun row => row.1 = k).Perm
      ((d.get k).toList.map fun p => (k, p)) := by
    rw [← d.filter_entries k]
    exact Dict.groupBy_perm.filter _
  cases hget : d.get k with
  | none =>
    rw [hget] at hperm
    rw [List.perm_nil.mp hperm]
    rfl
  | some p =>
    rw [hget] at hperm
    rw [List.perm_singleton.mp hperm]
    rfl

theorem patchesOf_append {k : OrderId} {rows rows' : List (OrderId × FactPatch)} :
    patchesOf k (rows ++ rows') = patchesOf k rows ++ patchesOf k rows' := by
  unfold patchesOf
  rw [List.filter_append, List.map_append]

/-- **One batch** leaves what its rows leave one by one. -/
theorem same_facts_batch (t : OrderFacts) (b : List Event) :
    Table.Same (FactsProjector.handleBatch t b)
      ((b.flatMap fun e => (factRow e).toList).foldl upsertFact t) := by
  rw [Table.same_iff_find]
  intro k
  have hrows : (b.flatMap fun e => (factRow e).toList) = b.filterMap factRow :=
    (List.filterMap_eq_flatMap_toList _ _).symm
  unfold FactsProjector.handleBatch foldFacts
  rw [find_upsertFacts, get_merged, hrows, find_foldl_upsertFact]
  split
  · rfl
  · show some _ = some _
    rw [Patch.foldl_onto_above, Patch.onto_empty]

/-- **The facts projector**, however its events are cut into batches. -/
theorem same_facts (t : OrderFacts) (batches : List (List Event)) :
    Table.Same (batches.foldl FactsProjector.handleBatch t)
      ((batches.flatten.flatMap fun e => (factRow e).toList).foldl upsertFact t) :=
  Table.same_foldl_batches find_upsertFact fun t b _ => same_facts_batch t b

/-! ### Views -/

/-- What an insert that ignores conflicts does. -/
def firstRow {ρ : Type*} (row : ρ) (old : Option ρ) : Option ρ := some (old.getD row)

/-- **The views projector**, however its events are cut into batches. -/
theorem same_views (t : MenuViews) (batches : List (List Event)) :
    Table.Same (batches.foldl ViewsProjector.handleBatch t)
      ((batches.flatten.flatMap fun e => (viewRow e).toList).foldl Table.insertOrIgnore t) := by
  refine @Table.same_foldl_batches _ _ _ _ _ _ _ _ MenuView.viewId firstRow _ _ _
    (fun _ _ _ => Table.find_insertOrIgnore) fun t b _ => ?_
  rw [← List.filterMap_eq_flatMap_toList]
  exact fun _ => Iff.rfl

/-! ### Item facts -/

/-- **The item projector**, however its events are cut into batches. -/
theorem same_items (t : ItemFacts) (batches : List (List Event)) :
    Table.Same (batches.foldl ItemFactsProjector.handleBatch t)
      ((batches.flatten.flatMap itemRows).foldl Table.insertOrIgnore t) :=
  @Table.same_foldl_batches _ _ _ _ _ _ _ _ ItemFact.key firstRow _ _ _
    (fun _ _ _ => Table.find_insertOrIgnore) fun _ _ _ _ => Iff.rfl

/-- The lines with a menu item. -/
def linesOf (p : Payload) (id : String) : List Line := p.items.filter fun l => l.menuItemId = some id

/-- The fact about a menu item of an order: its lines, summed up. -/
def itemOf (p : Payload) (id : String) : Option ItemFact :=
  (linesOf p id).head?.map fun line =>
    { itemFact p id line with
      qty := ((linesOf p id).map fun l => l.qty.getD 0).sum
      lineTotalCents := ((linesOf p id).map fun l => l.lineTotalCents.getD 0).sum }

theorem lineItem_none {l : Line} (h : l.menuItemId = none ∨ l.menuItemId = some "") :
    lineItem l = none := by
  unfold lineItem
  rcases h with h | h <;> rw [h] <;> rfl

theorem lineItem_some {l : Line} {id : String} (h : l.menuItemId = some id) (hid : id ≠ "") :
    lineItem l = some (id, l) := by
  unfold lineItem
  rw [h, Option.filter_some, if_pos (decide_eq_true hid)]
  rfl

theorem filter_lineItem (items : List Line) {id : String} (hid : id ≠ "") :
    ((items.filterMap lineItem).filter fun line => line.1 = id) =
      (items.filter fun l => l.menuItemId = some id).map fun l => (id, l) := by
  induction items with
  | nil => rfl
  | cons l ls ih =>
    rw [List.filter_cons]
    by_cases hnone : l.menuItemId = none ∨ l.menuItemId = some ""
    · have hne : ¬ l.menuItemId = some id := by
        rintro h
        rcases hnone with hnone | hnone <;> rw [h] at hnone
        · cases hnone
        · exact hid (Option.some.inj hnone)
      rw [List.filterMap_cons_none (lineItem_none hnone), ih, if_neg (by simpa using hne)]
    · obtain ⟨hsome, hempty⟩ := not_or.mp hnone
      obtain ⟨id', hid'⟩ := Option.ne_none_iff_exists'.mp hsome
      have hne' : id' ≠ "" := fun h => hempty (hid'.trans (congrArg some h))
      rw [List.filterMap_cons_some (lineItem_some hid' hne'), List.filter_cons, ih, hid']
      by_cases he : id' = id
      · rw [if_pos (decide_eq_true he), if_pos (decide_eq_true (congrArg some he)), he]
        rfl
      · have he' : ¬ some id' = some id := fun h => he (Option.some.inj h)
        rw [if_neg (by simpa using he), if_neg (by simpa using he')]

theorem foldl_add (p : Payload) (id : String) (row : ItemFact) (ls : List Line) :
    (ls.map fun l => (id, l)).foldl (fun o line => some (o.elim (itemFact p line.1 line.2)
        fun row => row.add line.2)) (some row) =
      some { row with
        qty := row.qty + (ls.map fun l => l.qty.getD 0).sum
        lineTotalCents := row.lineTotalCents + (ls.map fun l => l.lineTotalCents.getD 0).sum } := by
  induction ls generalizing row with
  | nil => simp
  | cons l ls ih =>
    rw [List.map_cons, List.foldl_cons, Option.elim_some, ih]
    simp only [ItemFact.add, List.map_cons, List.sum_cons, add_assoc]

/-- The entry of a menu item in the dictionary of `itemValues`. -/
theorem get_items (p : Payload) {id : String} (hid : id ≠ "") :
    (Dict.gather Prod.fst
      (fun line row => row.elim (itemFact p line.1 line.2) fun row => row.add line.2)
      (p.items.filterMap lineItem)).get id = itemOf p id := by
  rw [Dict.get_gather, filter_lineItem _ hid]
  show (List.map _ (linesOf p id)).foldl _ none = _
  unfold itemOf
  cases linesOf p id with
  | nil => rfl
  | cons l ls =>
    rw [List.map_cons, List.foldl_cons, Option.elim_none, foldl_add]
    rfl

theorem itemOf_key {p : Payload} {id : String} {f : ItemFact} (h : itemOf p id = some f) :
    f.key = (p.orderId, id) := by
  obtain ⟨line, -, rfl⟩ := Option.map_eq_some_iff.mp h
  rfl

theorem item_ne_empty {items : List Line} {id : String} {l : Line}
    (h : (id, l) ∈ items.filterMap lineItem) : id ≠ "" := by
  obtain ⟨l', -, hl'⟩ := List.mem_filterMap.mp h
  obtain ⟨id', hid', heq⟩ := Option.map_eq_some_iff.mp hl'
  cases heq
  have hne := (Option.filter_eq_some_iff.mp hid').2
  exact of_decide_eq_true hne

/-- **One row for each menu item**, with the sums of its lines. -/
theorem mem_itemValues {p : Payload} {f : ItemFact} :
    f ∈ itemValues p ↔ f.orderId = p.orderId ∧ f.menuItemId ≠ "" ∧
      itemOf p f.menuItemId = some f := by
  unfold itemValues
  rw [Dict.mem_values]
  constructor
  · rintro ⟨id, hget⟩
    obtain ⟨⟨id', l⟩, hmem, rfl⟩ := Dict.exists_of_get_gather hget
    have hid := item_ne_empty hmem
    rw [get_items p hid] at hget
    obtain ⟨horder, hitem⟩ := Prod.mk.inj (itemOf_key hget)
    exact ⟨horder, hitem ▸ hid, hitem ▸ hget⟩
  · rintro ⟨-, hid, h⟩
    exact ⟨f.menuItemId, (get_items p hid).trans h⟩

/-- The row of a menu item of an order, among those of a payload. -/
def rowOf (orderId : OrderId) (id : String) (p : Payload) : Option ItemFact :=
  if p.orderId = orderId then itemOf p id else none

theorem find?_itemValues (p : Payload) (orderId : OrderId) {id : String} (hid : id ≠ "") :
    (itemValues p).find? (fun f => f.key = (orderId, id)) = rowOf orderId id p := by
  unfold rowOf
  cases hfind : (itemValues p).find? fun f => decide (f.key = (orderId, id)) with
  | none =>
    have hno := List.find?_eq_none.mp hfind
    split
    · next horder =>
      cases hitem : itemOf p id with
      | none => rfl
      | some f =>
        have hkey := itemOf_key hitem
        obtain ⟨hf, hfid⟩ := Prod.mk.inj hkey
        have hmem : f ∈ itemValues p := mem_itemValues.mpr ⟨hf, hfid ▸ hid, hfid ▸ hitem⟩
        exact absurd (decide_eq_true (hkey.trans (by rw [horder]))) (hno f hmem)
    · rfl
  | some f =>
    obtain ⟨horder, -, hitem⟩ := mem_itemValues.mp (List.mem_of_find?_eq_some hfind)
    have hkey : f.key = (orderId, id) := by simpa using List.find?_some hfind
    obtain ⟨hf, hfid⟩ := Prod.mk.inj hkey
    rw [if_pos (horder.symm.trans hf), ← hfid, hitem]

/-- The payload of an order that is placed. -/
def placed : Event → Option Payload
  | .order e => if e.type = .orderPlaced then some e.payload else none
  | _ => none

theorem itemRows_eq (e : Event) : itemRows e = (placed e).elim [] itemValues := by
  cases e with
  | order e =>
    show (if e.type = .orderPlaced then itemValues e.payload else []) =
      (if e.type = .orderPlaced then some e.payload else none).elim [] itemValues
    split <;> rfl
  | _ => rfl

theorem foldl_firstRow {ρ : Type*} (rows : List ρ) (old : Option ρ) :
    rows.foldl (fun o row => firstRow row o) old = old.or rows.head? := by
  induction rows generalizing old with
  | nil => exact Option.or_none.symm
  | cons row rows ih =>
    rw [List.foldl_cons, ih]
    cases old <;> rfl

/-- **The item facts** are the rows of the first `OrderPlaced` that names the menu item. -/
theorem find_items (events : List Event) (orderId : OrderId) {id : String} (hid : id ≠ "") :
    ((events.flatMap itemRows).foldl Table.insertOrIgnore (Table.empty : ItemFacts)).find
      (orderId, id) = (events.filterMap placed).findSome? (rowOf orderId id) := by
  have hop : ∀ (t : ItemFacts) (row : ItemFact) k, (t.insertOrIgnore row).find k =
      if row.key = k then firstRow row (t.find k) else t.find k :=
    fun _ _ _ => Table.find_insertOrIgnore
  rw [Table.find_foldl hop, foldl_firstRow]
  show Option.or none _ = _
  rw [Option.none_or, List.head?_filter, List.find?_flatMap]
  induction events with
  | nil => rfl
  | cons e es ih =>
    rw [List.findSome?_cons, ih, itemRows_eq]
    cases hp : placed e with
    | none =>
      rw [List.filterMap_cons_none hp]
      rfl
    | some p =>
      rw [List.filterMap_cons_some hp, List.findSome?_cons, Option.elim_some,
        find?_itemValues p orderId hid]

/-! ### Facts of the assistant -/

/-- What a row does to the fact that is there. -/
def assistantAfter (row : AssistantFact) (old : Option AssistantFact) : Option AssistantFact :=
  some (old.elim row fun old => old.restate row)

theorem find_upsertAssistantFact (t : AssistantFacts) (row : AssistantFact) (k : String) :
    (upsertAssistantFact t row).find k =
      if row.messageId = k then assistantAfter row (t.find k) else t.find k :=
  Table.find_insertOr fun _ _ => rfl

/-- The facts of one message agree on where it was said, and by whom. -/
def Agreeing (rows : List AssistantFact) : Prop :=
  ∀ v ∈ rows, ∀ w ∈ rows, v.messageId = w.messageId →
    v.conversationId = w.conversationId ∧ v.userId = w.userId ∧ v.city = w.city

/-- Of the rows of one message the last one remains. -/
theorem foldl_assistantAfter (rows : List AssistantFact) (hagree : Agreeing rows) {k : String}
    (hrows : ∀ v ∈ rows, v.messageId = k) (old : Option AssistantFact) :
    rows.foldl (fun o row => assistantAfter row o) old =
      rows.getLast?.elim old fun row => assistantAfter row old := by
  induction rows generalizing old with
  | nil => rfl
  | cons v rows ih =>
    have hv := hrows v List.mem_cons_self
    rw [List.foldl_cons, ih (fun w hw x hx => hagree w (List.mem_cons_of_mem _ hw) x
      (List.mem_cons_of_mem _ hx)) (fun w hw => hrows w (List.mem_cons_of_mem _ hw)),
      List.getLast?_cons]
    cases hlast : rows.getLast? with
    | none => rfl
    | some w =>
      have hw : w ∈ v :: rows := List.mem_cons_of_mem _ (List.mem_of_getLast? hlast)
      obtain ⟨hconversation, huser, hcity⟩ :=
        hagree v List.mem_cons_self w hw (hv.trans (hrows w hw).symm)
      show some _ = some _
      congr 1
      cases old with
      | none =>
        show v.restate w = w
        unfold AssistantFact.restate
        rw [hconversation, huser, hcity]
      | some r => rfl

theorem get_deduped {rows : List AssistantFact} {k : String} :
    (deduped rows).get k = (rows.filter fun row => row.messageId = k).getLast? := by
  have hfold : ∀ (xs : List AssistantFact) (o : Option AssistantFact),
      xs.foldl (fun _ x => some x) o = xs.getLast?.or o := by
    intro xs
    induction xs with
    | nil => exact fun _ => rfl
    | cons x xs ih =>
      intro o
      rw [List.foldl_cons, ih, List.getLast?_cons]
      cases xs.getLast? <;> rfl
  unfold deduped
  rw [Dict.get_gather, hfold, Option.or_none]

/-- The rows of a statement are about the messages that they are the entries of. -/
theorem messageId_of_get {rows : List AssistantFact} {k : String} {v : AssistantFact}
    (h : (deduped rows).get k = some v) : v.messageId = k := by
  rw [get_deduped] at h
  exact of_decide_eq_true (List.mem_filter.mp (List.mem_of_getLast? h)).2

theorem filter_values (rows : List AssistantFact) (k : String) :
    ((deduped rows).values.filter fun row => row.messageId = k) = ((deduped rows).get k).toList := by
  have hvalues : (deduped rows).values.filter (fun row => row.messageId = k) =
      ((deduped rows).entries.filter fun e => e.1 = k).map Prod.snd := by
    unfold Dict.values
    rw [List.filter_map]
    refine congrArg _ (List.filter_congr fun e he => ?_)
    rw [Function.comp_apply, messageId_of_get (Dict.mem_entries.mp he)]
  rw [hvalues, Dict.filter_entries, List.map_map]
  exact List.map_id _

/-- **One batch** leaves what its rows leave one by one. -/
theorem same_assistantFacts_batch (t : AssistantFacts) (b : List Event)
    (hagree : Agreeing (b.filterMap assistantRow)) :
    Table.Same (AssistantFactsProjector.handleBatch t b)
      ((b.flatMap fun e => (assistantRow e).toList).foldl upsertAssistantFact t) := by
  rw [Table.same_iff_find, ← List.filterMap_eq_flatMap_toList]
  intro k
  unfold AssistantFactsProjector.handleBatch insertAssistantFacts
  rw [Table.find_foldl find_upsertAssistantFact, Table.find_foldl find_upsertAssistantFact,
    filter_values, get_deduped, foldl_assistantAfter _
      (fun v hv w hw => hagree v (List.mem_of_mem_filter hv) w (List.mem_of_mem_filter hw))
      fun v hv => of_decide_eq_true (List.mem_filter.mp hv).2]
  cases ((b.filterMap assistantRow).filter _).getLast? <;> rfl

/-- **The assistant's projector**, however its events are cut into batches. -/
theorem same_assistantFacts (t : AssistantFacts) (batches : List (List Event))
    (hagree : Agreeing (batches.flatten.filterMap assistantRow)) :
    Table.Same (batches.foldl AssistantFactsProjector.handleBatch t)
      ((batches.flatten.flatMap fun e => (assistantRow e).toList).foldl upsertAssistantFact t) := by
  refine Table.same_foldl_batches find_upsertAssistantFact fun t b hb =>
    same_assistantFacts_batch t b ?_
  have hsub : ∀ v ∈ b.filterMap assistantRow, v ∈ batches.flatten.filterMap assistantRow := by
    intro v hv
    obtain ⟨e, he, hrow⟩ := List.mem_filterMap.mp hv
    exact List.mem_filterMap.mpr ⟨e, List.mem_flatten.mpr ⟨b, hb, he⟩, hrow⟩
  exact fun v hv w hw => hagree v (hsub v hv) w (hsub w hw)

/-! ### All projectors -/

/-- No order is in a statement twice. -/
theorem nodup_factStatement {b : List Event} {statement : List (OrderId × FactPatch)}
    (h : statement ∈ factStatements (foldFacts b).entries) : (statement.map Prod.fst).Nodup :=
  (foldFacts b).distinct.sublist ((Dict.sublist_of_mem_groupBy h).map Prod.fst)

/-- No message is in a statement twice. -/
theorem nodup_deduped (rows : List AssistantFact) :
    ((deduped rows).values.map AssistantFact.messageId).Nodup := by
  have hkeys : (deduped rows).values.map AssistantFact.messageId =
      (deduped rows).entries.map Prod.fst := by
    unfold Dict.values
    rw [List.map_map]
    refine List.map_congr_left fun e he => ?_
    exact messageId_of_get (Dict.mem_entries.mp he)
  rw [hkeys]
  exact (deduped rows).distinct

/-- The table has exactly one fact for each menu item of the order, with its lines summed up. -/
structure Itemised (t : ItemFacts) (p : Payload) : Prop where
  one : ∀ id, id ≠ "" → linesOf p id ≠ [] → ∃! f, f ∈ t ∧ f.key = (p.orderId, id)
  summed : ∀ f ∈ t, f.orderId = p.orderId →
    f.menuItemId ≠ "" ∧ linesOf p f.menuItemId ≠ [] ∧
      f.qty = ((linesOf p f.menuItemId).map fun l => l.qty.getD 0).sum ∧
      f.lineTotalCents = ((linesOf p f.menuItemId).map fun l => l.lineTotalCents.getD 0).sum

/-- **How events are cut into batches cannot be seen.** -/
structure Invisible (batches : List (List Event)) : Prop where
  facts : ∀ t, Table.Same (batches.foldl FactsProjector.handleBatch t)
    (batches.flatten.foldl FactsProjector.handle t)
  items : ∀ t, Table.Same (batches.foldl ItemFactsProjector.handleBatch t)
    (batches.flatten.foldl ItemFactsProjector.handle t)
  views : ∀ t, Table.Same (batches.foldl ViewsProjector.handleBatch t)
    (batches.flatten.foldl ViewsProjector.handle t)
  assistant : ∀ t, Table.Same (batches.foldl AssistantFactsProjector.handleBatch t)
    (batches.flatten.foldl AssistantFactsProjector.handle t)
  /-- A statement that updates on a conflict has no key twice. -/
  legal : ∀ b ∈ batches,
    (∀ statement ∈ factStatements (foldFacts b).entries, (statement.map Prod.fst).Nodup) ∧
      ((deduped (b.filterMap assistantRow)).values.map AssistantFact.messageId).Nodup
  /-- The fact about a menu item is that of the first `OrderPlaced` that names it. -/
  first : ∀ orderId id, id ≠ "" →
    (batches.foldl ItemFactsProjector.handleBatch .empty).find (orderId, id) =
      (batches.flatten.filterMap placed).findSome? (rowOf orderId id)
  /-- An order is placed with the same lines each time that its event is delivered. -/
  itemised : ∀ p ∈ batches.flatten.filterMap placed,
    (∀ q ∈ batches.flatten.filterMap placed, q.orderId = p.orderId → q.items = p.items) →
      Itemised (batches.foldl ItemFactsProjector.handleBatch .empty) p

/-- One event at a time is a way to cut them. -/
theorem foldl_handle {τ : Type*} (handleBatch : τ → List Event → τ) (events : List Event) (t : τ) :
    events.foldl (fun t e => handleBatch t [e]) t =
      (events.map fun e => [e]).foldl handleBatch t := by
  rw [List.foldl_map]

theorem flatten_singletons (events : List Event) : (events.map fun e => [e]).flatten = events := by
  induction events with
  | nil => rfl
  | cons e es ih => rw [List.map_cons, List.flatten_cons, ih, List.singleton_append]

theorem items_empty_id (events : List Event) (orderId : OrderId) :
    ((events.flatMap itemRows).foldl Table.insertOrIgnore (Table.empty : ItemFacts)).find
      (orderId, "") = none := by
  have hop : ∀ (t : ItemFacts) (row : ItemFact) k, (t.insertOrIgnore row).find k =
      if row.key = k then firstRow row (t.find k) else t.find k :=
    fun _ _ _ => Table.find_insertOrIgnore
  have hno : (events.flatMap itemRows).filter (fun f => f.key = (orderId, "")) = [] := by
    refine List.filter_eq_nil_iff.mpr fun f hf => ?_
    obtain ⟨e, -, hrow⟩ := List.mem_flatMap.mp hf
    rw [itemRows_eq] at hrow
    cases hp : placed e with
    | none =>
      rw [hp] at hrow
      cases hrow
    | some p =>
      rw [hp] at hrow
      have hne := (mem_itemValues.mp hrow).2.1
      simpa [ItemFact.key] using fun _ => hne
  rw [Table.find_foldl hop, hno]
  rfl

/-- The lines of an order whose deliveries all carry them. -/
theorem itemised_of_agree {events : List Event} {t : ItemFacts}
    (ht : Table.Same t ((events.flatMap itemRows).foldl Table.insertOrIgnore .empty))
    {p : Payload} (hp : p ∈ events.filterMap placed)
    (hlines : ∀ q ∈ events.filterMap placed, q.orderId = p.orderId → q.items = p.items) :
    Itemised t p := by
  have hfind : ∀ orderId id, id ≠ "" →
      t.find (orderId, id) = (events.filterMap placed).findSome? (rowOf orderId id) :=
    fun orderId id hid => (Table.same_iff_find.mp ht _).trans (find_items events orderId hid)
  have hof : ∀ q ∈ events.filterMap placed, ∀ id f, rowOf p.orderId id q = some f →
      itemOf q id = some f ∧ linesOf q id = linesOf p id := by
    intro q hq id f hrow
    unfold rowOf at hrow
    split at hrow
    · next horder =>
      refine ⟨hrow, ?_⟩
      unfold linesOf
      rw [hlines q hq horder]
    · cases hrow
  refine ⟨fun id hid hne => ?_, fun f hf horder => ?_⟩
  · obtain ⟨f, hf⟩ : ∃ f, (events.filterMap placed).findSome? (rowOf p.orderId id) = some f := by
      refine Option.isSome_iff_exists.mp (List.findSome?_isSome_iff.mpr ⟨p, hp, ?_⟩)
      unfold rowOf itemOf
      rw [if_pos rfl, Option.isSome_map]
      cases hl : linesOf p id with
      | nil => exact absurd hl hne
      | cons l ls => rfl
    have hget := (hfind p.orderId id hid).trans hf
    obtain ⟨hmem, hkey⟩ := Table.find_eq_some.mp hget
    refine ⟨f, ⟨hmem, hkey⟩, fun g ⟨hg, hgkey⟩ => ?_⟩
    exact Table.eq_of_key hg hmem (hgkey.trans hkey.symm)
  · have hget : t.find (p.orderId, f.menuItemId) = some f :=
      Table.find_eq_some.mpr ⟨hf, Prod.ext horder rfl⟩
    have hid : f.menuItemId ≠ "" := by
      intro hid
      rw [hid, Table.same_iff_find.mp ht, items_empty_id] at hget
      cases hget
    rw [hfind p.orderId f.menuItemId hid] at hget
    obtain ⟨q, hq, hrow⟩ := List.exists_of_findSome?_eq_some hget
    obtain ⟨hitem, hsame⟩ := hof q hq _ f hrow
    obtain ⟨l, hl, heq⟩ := Option.map_eq_some_iff.mp hitem
    rw [hsame] at hl heq
    refine ⟨hid, ?_, ?_, ?_⟩
    · intro hnil
      rw [hnil] at hl
      cases hl
    · exact (congrArg ItemFact.qty heq).symm
    · exact (congrArg ItemFact.lineTotalCents heq).symm

/-- **Batching is invisible**, to all four projectors. -/
theorem batching_invisible (batches : List (List Event))
    (hagree : Agreeing (batches.flatten.filterMap assistantRow)) : Invisible batches := by
  have hone := flatten_singletons batches.flatten
  refine ⟨fun t => ?_, fun t => ?_, fun t => ?_, fun t => ?_, fun b _ => ?_,
    fun orderId id hid => ?_, fun p hp hlines => ?_⟩
  · have hcut := same_facts t (batches.flatten.map fun e => [e])
    rw [hone, ← foldl_handle] at hcut
    exact (same_facts t batches).trans hcut.symm
  · have hcut := same_items t (batches.flatten.map fun e => [e])
    rw [hone, ← foldl_handle] at hcut
    exact (same_items t batches).trans hcut.symm
  · have hcut := same_views t (batches.flatten.map fun e => [e])
    rw [hone, ← foldl_handle] at hcut
    exact (same_views t batches).trans hcut.symm
  · have hcut := same_assistantFacts t (batches.flatten.map fun e => [e]) (by rwa [hone])
    rw [hone, ← foldl_handle] at hcut
    exact (same_assistantFacts t batches hagree).trans hcut.symm
  · exact ⟨fun statement h => nodup_factStatement h, nodup_deduped _⟩
  · rw [Table.same_iff_find.mp (same_items .empty batches), find_items _ _ hid]
  · exact itemised_of_agree (same_items .empty batches) hp hlines

instance (rows : List AssistantFact) : Decidable (Agreeing rows) :=
  inferInstanceAs (Decidable (∀ v ∈ rows, ∀ w ∈ rows, _ → _))

/-- An order that is placed twice in one batch, and an interaction that is restated in the next
one. -/
def dinner : List (List Event) :=
  let placed : Order.Emission.Placed :=
    ⟨"usr_1", "rst_1", some "brd_1", [⟨some "itm_1", some "Biryani", some 1, some 900⟩,
      ⟨some "itm_1", some "Biryani", some 2, some 1600⟩], ⟨some 2500, none⟩, 10⟩
  let asked (outcome : String) : InteractionPayload :=
    ⟨some "msg_1", some "cnv_1", some "usr_1", some "Lahore", some outcome, none, some ["itm_1"],
      some ["rst_1"], some 3, some 0, some 800⟩
  [[.order ⟨.orderPlaced, placed.payload "ord_1"⟩, .order ⟨.orderPlaced, placed.payload "ord_1"⟩,
      .interaction (asked "answered") (some 11)],
    [.interaction (asked "failed") (some 12), .other "OrderMislaid"]]

theorem batching_invisible_dinner : Invisible dinner := batching_invisible dinner (by decide)

end Analytics
