/-
Churn costs no embedding.

* `Recipe.drainOne` — the reads of a drain and its write, with nothing between them;
* `written`, `mem_upsertAll_iff` — what an upsert writes, whatever the index holds;
* `Named`, `named_of_run` — whose chunk a row is can be read off its identifier, in every run;
* `Standing`, `standing_drainOne` — the texts of what was drained are in the index;
* `Refreshed`, `churn_free` — a drain of the churned payload keeps the vectors and brings the rest.
-/
import SmartFoodOps.Assistant.Churn
import SmartFoodOps.Assistant.Drain

open Machine Keyed

namespace Assistant

variable {D V φ : Type}

/-! ### One drain -/

structure Drained (V : Type) where
  /-- The texts of the one call that embeds; there is none without texts. -/
  embedded : List String
  index : Index V
  deleted : List (Row ItemFacts V)

/-- `_drain_one`. A row with nothing to index is only completed. -/
def Recipe.drainOne (x : Recipe V) (index : Index V) (restaurantId : String) (payload : Payload) :
    Drained V :=
  match x.chunk restaurantId payload with
  | none => ⟨[], index, []⟩
  | some k =>
    let stored := index.contentsFor restaurantId
    let vectors := x.vectors k stored
    ⟨(stale k stored).values, index.replace restaurantId k vectors,
      (upsertAll index.items (k.items.map fun c => (c, vectors.get c.contentHash))).rows.filter
        fun row => row.restaurantId = restaurantId && row.id ∉ k.items.map Chunk.id⟩

def Recipe.drainAll (x : Recipe V) (index : Index V) (rows : List (String × Payload)) : Index V :=
  rows.foldl (fun index row => (x.drainOne index row.1 row.2).index) index

variable {x : Recipe V} {index : Index V} {r r' : String} {p q p' : Payload} {k k' : Knowledge}

/-- The steps of a drain, if no other comes between them. -/
theorem exec_drainOne [DecidableEq D] {w : World D V} {d : D} {row : PendingRow}
    {rest : List PendingRow} (hpass : w.passes d = ⟨row :: rest, .reading⟩)
    (hk : x.chunk row.restaurantId row.payload = some k) :
    ∃ w', exec (step x) w [.readTexts d, .embed d, .write d] = some w' ∧
      w'.index = (x.drainOne w.index row.restaurantId row.payload).index := by
  let stored := w.index.contentsFor row.restaurantId
  let reading := w.setPass d ⟨row :: rest, .embedding stored⟩
  let writing := reading.setPass d ⟨row :: rest, .writing (x.vectors k stored)⟩
  have hread : step x w (.readTexts d) = some reading := by
    simp only [step, hpass, hk, Option.map_some]
    rfl
  have hembed : step x reading (.embed d) = some writing := by
    simp only [step, reading, World.setPass, Function.update_self, hk, Option.map_some]
    rfl
  have hwrite : step x writing (.write d) =
      some ((writing.write row k (x.vectors k stored)).setPass d ⟨rest, .reading⟩) := by
    simp only [step, writing, World.setPass, Function.update_self, hk, Option.map_some]
  refine ⟨(writing.write row k (x.vectors k stored)).setPass d ⟨rest, .reading⟩, ?_, ?_⟩
  · rw [exec_cons, hread, Option.bind_some, exec_cons, hembed, Option.bind_some, exec_cons, hwrite]
    rfl
  · unfold Recipe.drainOne
    rw [hk]
    rfl

/-! ### What is written -/

variable {t : ChunkTable φ V} {c : Chunk φ} {row : Row φ V} {chunks : List (Chunk φ × Option V)}

/-- The row with the vector that there is, or else with the one that is stored. -/
def written (t : ChunkTable φ V) (c : Chunk φ) (v : Option V) : Option (Row φ V) :=
  (v.or ((t.find c.id).map Row.embedding)).map c.row

theorem id_of_written {v : Option V} (h : written t c v = some row) :
    row.id = c.id ∧ row.restaurantId = c.restaurantId ∧ row.content = c.content := by
  obtain ⟨u, -, rfl⟩ := Option.map_eq_some_iff.mp h
  exact ⟨rfl, rfl, rfl⟩

theorem mem_upsert_iff {v : Option V} :
    row ∈ upsert t c v ↔ written t c v = some row ∨ row ∈ t ∧ row.id ≠ c.id := by
  cases v with
  | some v =>
    show row ∈ t.put (c.row v) ↔ some (c.row v) = some row ∨ _
    rw [Table.mem_put, Option.some.injEq, eq_comm]
    rfl
  | none =>
    unfold upsert written
    rw [Table.mem_modify, or_comm, Option.none_or, Option.map_map]
    refine or_congr_left ?_
    rw [Option.map_eq_some_iff]
    constructor
    · rintro ⟨old, hold, hid, rfl⟩
      refine ⟨old, Table.find_eq_some.mpr ⟨hold, hid⟩, ?_⟩
      show c.row old.embedding = { c.row old.embedding with id := old.id }
      rw [hid]
      rfl
    · rintro ⟨old, hfind, rfl⟩
      obtain ⟨hold, hid⟩ := Table.find_eq_some.mp hfind
      refine ⟨old, hold, hid, ?_⟩
      show c.row old.embedding = { c.row old.embedding with id := old.id }
      rw [hid]
      rfl

/-- An upsert finds what another leaves of another row. -/
theorem written_upsert {c' : Chunk φ} {v v' : Option V} (hne : c'.id ≠ c.id) :
    written (upsert t c v) c' v' = written t c' v' := by
  have hfind : (upsert t c v).find c'.id = t.find c'.id := by
    refine Table.find_congr fun row hid => ?_
    rw [mem_upsert_iff]
    constructor
    · rintro (hrow | ⟨hmem, -⟩)
      · exact absurd (hid.symm.trans (id_of_written hrow).1) hne
      · exact hmem
    · exact fun hmem => .inr ⟨hmem, fun h => hne (hid.symm.trans h)⟩
  unfold written
  rw [hfind]

/-- **Upserts** of chunks that have identifiers of their own: what they write, and the other rows. -/
theorem mem_upsertAll_iff (hnodup : (chunks.map fun c => c.1.id).Nodup) :
    row ∈ upsertAll t chunks ↔ (∃ c ∈ chunks, written t c.1 c.2 = some row) ∨
      row ∈ t ∧ ∀ c ∈ chunks, row.id ≠ c.1.id := by
  induction chunks generalizing t with
  | nil => simp [upsertAll]
  | cons c cs ih =>
    obtain ⟨hnew, hrest⟩ := List.nodup_cons.mp hnodup
    have hother : ∀ c' ∈ cs, c'.1.id ≠ c.1.id := fun c' hc' he =>
      hnew (List.mem_map.mpr ⟨c', hc', he⟩)
    have hwritten : (∃ c' ∈ cs, written (upsert t c.1 c.2) c'.1 c'.2 = some row) ↔
        ∃ c' ∈ cs, written t c'.1 c'.2 = some row :=
      exists_congr fun c' => and_congr_right fun hc' => by rw [written_upsert (hother c' hc')]
    have hih := @ih (upsert t c.1 c.2) hrest
    unfold upsertAll at hih ⊢
    rw [List.foldl_cons, hih, hwritten, mem_upsert_iff, List.exists_mem_cons_iff,
      List.forall_mem_cons]
    constructor
    · rintro (h | ⟨h | ⟨hmem, hne⟩, hrest'⟩)
      · exact .inl (.inr h)
      · exact .inl (.inl h)
      · exact .inr ⟨hmem, hne, hrest'⟩
    · rintro ((h | h) | ⟨hmem, hne, hrest'⟩)
      · -- no later chunk has the identifier of the row just written
        refine .inr ⟨.inl h, fun c' hc' he => hother c' hc' ?_⟩
        exact he.symm.trans (id_of_written h).1
      · exact .inl h
      · exact .inr ⟨.inr ⟨hmem, hne⟩, hrest'⟩

/-! ### Whose a row is -/

/-- A row's identifier is its restaurant's with a suffix, which is the restaurant's own for no
dish. -/
structure Named (index : Index V) : Prop where
  self : ∀ row ∈ index.restaurants,
    ':' ∉ row.restaurantId.toList ∧ row.id = chunkId row.restaurantId selfSuffix
  dish : ∀ row ∈ index.items, ':' ∉ row.restaurantId.toList ∧
    ∃ itemId, itemId ≠ selfSuffix ∧ row.id = chunkId row.restaurantId itemId

section

variable {vectors : Dict String V} (hk : x.chunk r p = some k) (hcat : Catalogued r p)

include hk in
theorem restaurant_of_chunk : k.restaurant.id = chunkId r selfSuffix ∧ k.restaurant.restaurantId = r := by
  obtain ⟨-, rfl⟩ := chunk_eq_some.mp hk
  exact ⟨rfl, rfl⟩

include hk in
theorem map_id_of_chunk : k.items.map Chunk.id = p.itemIds.map (chunkId r) := by
  obtain ⟨-, rfl⟩ := chunk_eq_some.mp hk
  exact id_itemChunks

include hk hcat

/-- A dish's chunk has an identifier that the catalog minted. -/
theorem of_mem_items {c : Chunk ItemFacts} (hc : c ∈ k.items) : c.restaurantId = r ∧
    ∃ itemId ∈ p.itemIds, itemId ≠ selfSuffix ∧ c.id = chunkId r itemId := by
  have hid : c.id ∈ p.itemIds.map (chunkId r) :=
    map_id_of_chunk hk ▸ List.mem_map.mpr ⟨c, hc, rfl⟩
  obtain ⟨itemId, hmem, hid⟩ := List.mem_map.mp hid
  obtain ⟨-, rfl⟩ := chunk_eq_some.mp hk
  exact ⟨(of_mem_itemChunks hc).2.1, itemId, hmem, fun h => hcat.minted (h ▸ hmem), hid.symm⟩

/-- The dishes' chunks have identifiers of their own. -/
theorem nodup_of_chunk : (k.items.map Chunk.id).Nodup := by
  rw [map_id_of_chunk hk]
  exact hcat.distinct.map fun _ _ h => (chunkId_inj hcat.colon hcat.colon h).2

theorem mem_upserted {row : Row ItemFacts V} :
    row ∈ upsertAll index.items (k.items.map fun c => (c, vectors.get c.contentHash)) ↔
      (∃ c ∈ k.items, written index.items c (vectors.get c.contentHash) = some row) ∨
        row ∈ index.items ∧ ∀ c ∈ k.items, row.id ≠ c.id := by
  have hnodup : ((k.items.map fun c => (c, vectors.get c.contentHash)).map fun c => c.1.id).Nodup := by
    rw [List.map_map]
    exact nodup_of_chunk hk hcat
  rw [mem_upsertAll_iff hnodup]
  simp only [List.mem_map, exists_exists_and_eq_and, forall_exists_index, and_imp,
    forall_apply_eq_imp_iff₂]

/-- **The dishes' table** after a write. -/
theorem mem_replace_items_iff {row : Row ItemFacts V} :
    row ∈ (index.replace r k vectors).items ↔
      (∃ c ∈ k.items, written index.items c (vectors.get c.contentHash) = some row) ∨
        row ∈ index.items ∧ row.restaurantId ≠ r ∧ ∀ c ∈ k.items, row.id ≠ c.id := by
  have hkeep : ((k.items.map fun c => (c, vectors.get c.contentHash)).map fun c => c.1.id) =
      k.items.map Chunk.id := List.map_map
  have hlisted : row.id ∈ k.items.map Chunk.id ↔ ¬ ∀ c ∈ k.items, row.id ≠ c.id := by
    rw [List.mem_map]
    constructor
    · rintro ⟨c, hc, hid⟩ hne
      exact hne c hc hid.symm
    · intro h
      by_contra hnone
      exact h fun c hc hid => hnone ⟨c, hc, hid.symm⟩
  unfold Index.replace Index.replaceRestaurant reconcile
  rw [Table.mem_deleteWhere, mem_upserted hk hcat, hkeep, ← Bool.not_eq_true, Bool.and_eq_true,
    decide_eq_true_eq, decide_eq_true_eq, hlisted, not_not]
  constructor
  · rintro ⟨hrow | ⟨hmem, hne⟩, hkept⟩
    · exact .inl hrow
    · exact .inr ⟨hmem, fun h => hkept ⟨h, hne⟩, hne⟩
  · rintro (⟨c, hc, hrow⟩ | ⟨hmem, hr, hne⟩)
    · exact ⟨.inl ⟨c, hc, hrow⟩, fun h => h.2 c hc (id_of_written hrow).1⟩
    · exact ⟨.inr ⟨hmem, hne⟩, fun h => hr h.1⟩

/-- **What is deleted**: the rows of the restaurant that no chunk takes. -/
theorem mem_deleted_iff {row : Row ItemFacts V} : row ∈ (x.drainOne index r p).deleted ↔
    row ∈ index.items ∧ row.restaurantId = r ∧ ∀ c ∈ k.items, row.id ≠ c.id := by
  unfold Recipe.drainOne
  rw [hk]
  show row ∈ List.filter _ _ ↔ _
  rw [List.mem_filter, ← Table.mem_def, mem_upserted hk hcat, Bool.and_eq_true, decide_eq_true_eq,
    decide_eq_true_eq]
  constructor
  · rintro ⟨⟨c, hc, hrow⟩ | ⟨hmem, hne⟩, hr, hnot⟩
    · exact absurd (List.mem_map.mpr ⟨c, hc, (id_of_written hrow).1.symm⟩) hnot
    · exact ⟨hmem, hr, hne⟩
  · rintro ⟨hmem, hr, hne⟩
    refine ⟨.inr ⟨hmem, hne⟩, hr, fun hin => ?_⟩
    obtain ⟨c, hc, hid⟩ := List.mem_map.mp hin
    exact hne c hc hid.symm

/-- A write, of whatever vectors, names its rows. -/
theorem named_replace (h : Named index) : Named (index.replace r k vectors) := by
  obtain ⟨hself, hrid⟩ := restaurant_of_chunk hk
  constructor
  · intro row hrow
    rcases mem_upsert_iff.mp hrow with hwritten | ⟨hmem, -⟩
    · obtain ⟨hid, hown, -⟩ := id_of_written hwritten
      rw [hown, hid, hrid]
      exact ⟨hcat.colon, hself⟩
    · exact h.self row hmem
  · intro row hrow
    rcases (mem_replace_items_iff hk hcat).mp hrow with ⟨c, hc, hwritten⟩ | ⟨hmem, -⟩
    · obtain ⟨hid, hown, -⟩ := id_of_written hwritten
      obtain ⟨hrid, itemId, -, hne, hcid⟩ := of_mem_items hk hcat hc
      rw [hown, hid, hrid]
      exact ⟨hcat.colon, itemId, hne, hcid⟩
    · exact h.dish row hmem

end

theorem named_drainOne (hcat : Catalogued r p) (h : Named index) :
    Named (x.drainOne index r p).index := by
  unfold Recipe.drainOne
  cases hk : x.chunk r p with
  | none => exact h
  | some k => exact named_replace hk hcat h

/-! ### Every run names its rows -/

/-- What is queued has identifiers that the catalog minted. -/
def Minted (_ : World D V) : Event D → Prop
  | .handle restaurantId payload _ _ => Catalogued restaurantId payload
  | _ => True

structure Minting (w : World D V) : Prop where
  index : Named w.index
  queue : ∀ row ∈ w.queue, Catalogued row.restaurantId row.payload
  passes : ∀ d, ∀ row ∈ (w.passes d).rows, Catalogued row.restaurantId row.payload

theorem minting_init : Minting (World.init : World D V) where
  index := ⟨fun _ h => absurd h Table.not_mem_empty, fun _ h => absurd h Table.not_mem_empty⟩
  queue _ h := absurd h Table.not_mem_empty
  passes _ _ h := absurd h List.not_mem_nil

theorem of_mem_stage {queue : Queue} {now debounce : ℕ} {row : PendingRow}
    (h : row ∈ stage queue r p now debounce) :
    row.restaurantId = r ∧ row.payload = p ∨ row ∈ queue := by
  unfold stage Table.insertOr at h
  simp only at h
  split at h
  · rcases Table.mem_put.mp h with rfl | ⟨hmem, -⟩
    · exact .inl ⟨rfl, rfl⟩
    · exact .inr hmem
  · next old hold =>
    rcases Table.mem_put.mp h with rfl | ⟨hmem, -⟩
    · exact .inl ⟨(Table.find_eq_some.mp hold).2, rfl⟩
    · exact .inr hmem

section

variable [DecidableEq D] {w w' : World D V} {d : D} {e : Event D}

/-- A drain that has gone on with fewer rows, or the same. -/
theorem Minting.setPass {pass : Pass V} (h : Minting w)
    (hrows : ∀ row ∈ pass.rows, Catalogued row.restaurantId row.payload) :
    Minting (w.setPass d pass) := by
  refine ⟨h.index, h.queue, fun d' => ?_⟩
  by_cases hd : d' = d
  · subst hd
    show ∀ row ∈ (Function.update w.passes d' pass d').rows, _
    rw [Function.update_self]
    exact hrows
  · show ∀ row ∈ (Function.update w.passes d pass d').rows, _
    rw [Function.update_of_ne hd]
    exact h.passes d'

/-- **Step.** -/
theorem minting_step (h : Minting w) (hok : Minted w e) (hs : step x w e = some w') :
    Minting w' := by
  cases e with
  | handle r p now debounce =>
    simp only [step] at hs
    split at hs
    · cases hs
      refine ⟨h.index, fun row hrow => ?_, h.passes⟩
      rcases of_mem_stage hrow with ⟨hr, hp⟩ | hmem
      · rw [hr, hp]
        exact hok
      · exact h.queue row hmem
    · cases hs
      exact h
  | due d now limit rows =>
    simp only [step] at hs
    split at hs
    · next hdue =>
      cases hs
      exact h.setPass fun row hrow => h.queue row (hdue.2.1 row hrow).1
    · cases hs
  | discard d =>
    simp only [step] at hs
    have hrows := h.passes d
    rcases hpass : w.passes d with ⟨_ | ⟨row, rest⟩, _ | stored | vectors⟩ <;>
      rw [hpass] at hs hrows <;> try cases hs
    simp only at hs
    split at hs
    · cases hs
      have hset : Minting (w.setPass d ⟨rest, .reading⟩) :=
        h.setPass fun row' hrow' => hrows row' (List.mem_cons_of_mem _ hrow')
      exact ⟨hset.index, fun row' hrow' => h.queue row' (Table.mem_deleteWhere.mp hrow').1,
        hset.passes⟩
    · cases hs
  | readTexts d | embed d =>
    simp only [step] at hs
    have hrows := h.passes d
    rcases hpass : w.passes d with ⟨_ | ⟨row, rest⟩, _ | stored | vectors⟩ <;>
      rw [hpass] at hs hrows <;> try cases hs
    obtain ⟨k, -, rfl⟩ := Option.map_eq_some_iff.mp hs
    exact h.setPass hrows
  | write d =>
    simp only [step] at hs
    have hrows := h.passes d
    rcases hpass : w.passes d with ⟨_ | ⟨row, rest⟩, _ | stored | vectors⟩ <;>
      rw [hpass] at hs hrows <;> try cases hs
    obtain ⟨k, hk, rfl⟩ := Option.map_eq_some_iff.mp hs
    have hwritten : Minting (w.write row k vectors) :=
      ⟨named_replace hk (hrows row List.mem_cons_self) h.index,
        fun row' hrow' => h.queue row' (Table.mem_deleteWhere.mp hrow').1, h.passes⟩
    exact hwritten.setPass fun row' hrow' => hrows row' (List.mem_cons_of_mem _ hrow')
  | fail d =>
    simp only [step] at hs
    cases hs
    exact h.setPass fun row hrow => absurd hrow List.not_mem_nil

/-- **Run.** Also where a slow drain overtakes another. -/
theorem named_of_run {is : List (Event D)} (h : Run (step x) Minted World.init is w) :
    Named w.index :=
  (h.invariant minting_init fun _ _ _ hm hok hs => minting_step hm hok hs).index

end

/-! ### The texts that are stored -/

/-- The restaurant's text is that of its row. -/
theorem lookup_self (h : Named index) {s : String} :
    (index.contentsFor r).lookup (chunkId r selfSuffix) = some s ↔ ∃ row ∈ index.restaurants,
      row.restaurantId = r ∧ row.id = chunkId r selfSuffix ∧ row.content = s := by
  unfold Index.contentsFor
  rw [List.lookup_append, Option.or_eq_some_iff, lookup_rows, lookup_rows]
  refine or_iff_left ?_
  rintro ⟨-, row, hrow, rfl, hid, -⟩
  obtain ⟨hcolon, itemId, hne, hown⟩ := h.dish row hrow
  exact hne (chunkId_inj hcolon hcolon (hown.symm.trans hid)).2

/-- A dish's text is that of the dish's row. -/
theorem lookup_dish (h : Named index) {itemId s : String} (hne : itemId ≠ selfSuffix) :
    (index.contentsFor r).lookup (chunkId r itemId) = some s ↔ ∃ row ∈ index.items,
      row.restaurantId = r ∧ row.id = chunkId r itemId ∧ row.content = s := by
  have hno : ((index.restaurants.rows.filter fun row => row.restaurantId = r).map fun row =>
      (row.id, row.content)).lookup (chunkId r itemId) = none := by
    refine Option.eq_none_iff_forall_ne_some.mpr fun s' hs' => ?_
    obtain ⟨row, hrow, rfl, hid, -⟩ := lookup_rows.mp hs'
    obtain ⟨hcolon, hown⟩ := h.self row hrow
    exact hne (chunkId_inj hcolon hcolon (hown.symm.trans hid)).2.symm
  unfold Index.contentsFor
  rw [List.lookup_append, hno, Option.none_or, lookup_rows]

/-! ### What a drain leaves -/

/-- The texts of what is known stand under their identifiers, and no dish stands beside them. -/
structure Standing (index : Index V) (restaurantId : String) (k : Knowledge) : Prop where
  restaurant : ∃ row ∈ index.restaurants, row.restaurantId = restaurantId ∧
    row.id = k.restaurant.id ∧ row.content = k.restaurant.content
  items : ∀ c ∈ k.items, ∃ row ∈ index.items, row.restaurantId = restaurantId ∧
    row.id = c.id ∧ row.content = c.content
  only : ∀ row ∈ index.items, row.restaurantId = restaurantId → ∃ c ∈ k.items, row.id = c.id

/-- A chunk that has a vector, or whose text is stored, is written. -/
theorem exists_written {t : ChunkTable φ V} {c : Chunk φ} {v : Option V}
    (h : v = none → ∃ row ∈ t, row.id = c.id) : ∃ row, written t c v = some row := by
  unfold written
  cases v with
  | some v => exact ⟨_, rfl⟩
  | none =>
    obtain ⟨old, hold, hid⟩ := h rfl
    rw [Table.find_eq_some.mpr ⟨hold, hid⟩]
    exact ⟨_, rfl⟩

/-- **After a drain** the texts stand. -/
theorem standing_drainOne (hk : x.chunk r p = some k) (hcat : Catalogued r p) (h : Named index) :
    Standing (x.drainOne index r p).index r k := by
  obtain ⟨hself, hrid⟩ := restaurant_of_chunk hk
  unfold Recipe.drainOne
  rw [hk]
  constructor
  · obtain ⟨row, hrow⟩ := @exists_written _ _ index.restaurants k.restaurant
      ((x.vectors k (index.contentsFor r)).get k.restaurant.contentHash) fun hnone => by
        have hlookup := lookup_of_get_vectors hnone List.mem_cons_self
        rw [hself] at hlookup
        obtain ⟨old, hold, -, hid, -⟩ := (lookup_self h).mp hlookup
        exact ⟨old, hold, hid.trans hself.symm⟩
    obtain ⟨hid, hown, hcontent⟩ := id_of_written hrow
    exact ⟨row, mem_upsert_iff.mpr (.inl hrow), hown.trans hrid, hid, hcontent⟩
  · intro c hc
    obtain ⟨hcrid, itemId, -, hne, hcid⟩ := of_mem_items hk hcat hc
    obtain ⟨row, hrow⟩ := @exists_written _ _ index.items c
      ((x.vectors k (index.contentsFor r)).get c.contentHash) fun hnone => by
        have hlookup := lookup_of_get_vectors hnone
          (List.mem_cons_of_mem _ (List.mem_map.mpr ⟨c, hc, rfl⟩))
        rw [hcid] at hlookup
        obtain ⟨old, hold, -, hid, -⟩ := (lookup_dish h hne).mp hlookup
        exact ⟨old, hold, hid.trans hcid.symm⟩
    obtain ⟨hid, hown, hcontent⟩ := id_of_written hrow
    exact ⟨row, (mem_replace_items_iff hk hcat).mpr (.inl ⟨c, hc, hrow⟩), hown.trans hcrid, hid,
      hcontent⟩
  · intro row hrow hr
    rcases (mem_replace_items_iff hk hcat).mp hrow with ⟨c, hc, hwritten⟩ | ⟨-, hother, -⟩
    · exact ⟨c, hc, (id_of_written hwritten).1⟩
    · exact absurd hr hother

/-- **A drain of another restaurant** leaves them standing. -/
theorem standing_drainOne_other (hr : r' ≠ r) (hk : x.chunk r p = some k) (hcat : Catalogued r p)
    (hcat' : Catalogued r' p') (h : Standing index r k) :
    Standing (x.drainOne index r' p').index r k := by
  obtain ⟨hself, -⟩ := restaurant_of_chunk hk
  unfold Recipe.drainOne
  cases hk' : x.chunk r' p' with
  | none => exact h
  | some k' =>
    obtain ⟨hself', -⟩ := restaurant_of_chunk hk'
    have hids : ∀ s s', chunkId r s ≠ chunkId r' s' := fun s s' he =>
      hr (chunkId_inj hcat.colon hcat'.colon he).1.symm
    constructor
    · obtain ⟨row, hrow, hrid, hid, hcontent⟩ := h.restaurant
      refine ⟨row, mem_upsert_iff.mpr (.inr ⟨hrow, ?_⟩), hrid, hid, hcontent⟩
      rw [hid, hself, hself']
      exact hids _ _
    · intro c hc
      obtain ⟨row, hrow, hrid, hid, hcontent⟩ := h.items c hc
      obtain ⟨-, itemId, -, -, hcid⟩ := of_mem_items hk hcat hc
      refine ⟨row, (mem_replace_items_iff hk' hcat').mpr (.inr ⟨hrow, ?_, fun c' hc' => ?_⟩), hrid,
        hid, hcontent⟩
      · rw [hrid]
        exact Ne.symm hr
      · obtain ⟨-, itemId', -, -, hcid'⟩ := of_mem_items hk' hcat' hc'
        rw [hid, hcid, hcid']
        exact hids _ _
    · intro row hrow hown
      rcases (mem_replace_items_iff hk' hcat').mp hrow with ⟨c, hc, hwritten⟩ | ⟨hmem, -⟩
      · obtain ⟨hrid, -⟩ := of_mem_items hk' hcat' hc
        exact absurd (hrid.symm.trans ((id_of_written hwritten).2.1.symm.trans hown)) hr
      · exact h.only row hmem hown

theorem standing_drainAll {rows : List (String × Payload)}
    (hrows : ∀ row ∈ rows, row.1 ≠ r ∧ Catalogued row.1 row.2) (hk : x.chunk r p = some k)
    (hcat : Catalogued r p) (hnamed : Named index) (h : Standing index r k) :
    Named (x.drainAll index rows) ∧ Standing (x.drainAll index rows) r k := by
  induction rows generalizing index with
  | nil => exact ⟨hnamed, h⟩
  | cons row rest ih =>
    obtain ⟨hne, hcat'⟩ := hrows row List.mem_cons_self
    exact ih (fun row' hrow' => hrows row' (List.mem_cons_of_mem _ hrow'))
      (named_drainOne hcat' hnamed) (standing_drainOne_other hne hk hcat hcat' h)

/-! ### The drain of the churned payload -/

/-- What a drain of `p'` does where `p` was drained before: nothing is embedded, every chunk keeps
the vector of its row and brings the rest, and the dishes that are no longer listed go. -/
structure Refreshed (restaurantId : String) (p p' : Payload) (k' : Knowledge) (index : Index V)
    (done : Drained V) : Prop where
  embedded : done.embedded = []
  restaurant : ∃ old ∈ index.restaurants, old.id = k'.restaurant.id ∧
    old.content = k'.restaurant.content ∧
    k'.restaurant.row old.embedding ∈ done.index.restaurants
  items : ∀ c ∈ k'.items, ∃ old ∈ index.items, old.id = c.id ∧ old.content = c.content ∧
    c.row old.embedding ∈ done.index.items
  only : ∀ row ∈ done.index.items, row.restaurantId = restaurantId → ∃ c ∈ k'.items, row.id = c.id
  status : k'.restaurant.facts.status =
    if (clean p'.status).isEmpty then "open" else clean p'.status
  facts : ∀ category ∈ p'.categories, ∀ item ∈ category.items, ∀ itemId ∈ item.listedId,
    ∃ c ∈ k'.items, c.id = chunkId restaurantId itemId ∧
      c.facts.priceCents = item.priceCents.getD 0 ∧ c.facts.available = item.available ∧
      c.facts.status = k'.restaurant.facts.status
  deleted : ∀ row ∈ done.deleted, row ∈ index.items ∧ row ∉ done.index.items
  gone : ∀ id, id ∈ done.deleted.map Row.id ↔
    ∃ itemId ∈ p.itemIds, itemId ∉ p'.itemIds ∧ id = chunkId restaurantId itemId
  otherRestaurants : ∀ row, row.restaurantId ≠ restaurantId →
    (row ∈ done.index.restaurants ↔ row ∈ index.restaurants)
  otherItems : ∀ row, row.restaurantId ≠ restaurantId →
    (row ∈ done.index.items ↔ row ∈ index.items)

/-- Where every text is stored, none is embedded. -/
theorem stale_eq_nil {stored : List (String × String)}
    (hself : stored.lookup k.restaurant.id = some k.restaurant.content)
    (hitems : ∀ c ∈ k.items, stored.lookup c.id = some c.content) :
    (stale k stored).values = [] ∧ ∀ hash, (x.vectors k stored).get hash = none := by
  have hnone : ((k.restaurant.id, k.restaurant.contentHash, k.restaurant.content) ::
      k.items.map fun c => (c.id, c.contentHash, c.content)).filter
        (fun t => stored.lookup t.1 ≠ some t.2.2) = [] := by
    refine List.filter_eq_nil_iff.mpr fun t ht => ?_
    rcases List.mem_cons.mp ht with rfl | ht
    · simpa using hself
    · obtain ⟨c, hc, rfl⟩ := List.mem_map.mp ht
      simpa using hitems c hc
  have hstale : stale k stored = Dict.empty := by
    unfold stale
    simp only [hnone]
    rfl
  unfold Recipe.vectors
  rw [hstale]
  exact ⟨rfl, fun _ => rfl⟩

theorem facts_of_chunk (hk : x.chunk r p = some k) {category : MenuCategory}
    (hcategory : category ∈ p.categories) {item : MenuItem} (hitem : item ∈ category.items)
    {itemId : String} (hlisted : item.listedId = some itemId) : ∃ c ∈ k.items,
      c.id = chunkId r itemId ∧ c.facts.priceCents = item.priceCents.getD 0 ∧
        c.facts.available = item.available ∧ c.facts.status = k.restaurant.facts.status := by
  obtain ⟨-, rfl⟩ := chunk_eq_some.mp hk
  obtain ⟨c, hc, rfl⟩ := @exists_itemChunk x.lower x.digest r (restaurantFacts x.lower p)
    (clean category.name) item itemId hlisted
  obtain ⟨-, htexts, hprice, havailable, hstatus⟩ := of_itemChunk hc
  have hmem : c ∈ itemChunks x.lower x.digest r p :=
    List.mem_flatMap.mpr ⟨category, hcategory, List.mem_filterMap.mpr ⟨item, hitem, hc⟩⟩
  exact ⟨c, hmem, (Prod.mk.inj htexts).1, hprice, havailable, hstatus⟩

theorem written_none {t : ChunkTable φ V} {c : Chunk φ} {old : Row φ V} (hold : old ∈ t)
    (hid : old.id = c.id) : written t c none = some (c.row old.embedding) := by
  unfold written
  rw [Table.find_eq_some.mpr ⟨hold, hid⟩]
  rfl

section

variable (hk : x.chunk r p = some k) (hk' : x.chunk r p' = some k') (hcat : Catalogued r p)
  (hcat' : Catalogued r p') (htexts : k'.texts.Sublist k.texts) (hstanding : Standing index r k)

include hk hk' hcat htexts hstanding in
/-- The restaurant's text is one that stands. -/
theorem restaurant_stands : ∃ row ∈ index.restaurants, row.restaurantId = r ∧
    row.id = k'.restaurant.id ∧ row.content = k'.restaurant.content := by
  obtain ⟨hself, -⟩ := restaurant_of_chunk hk
  obtain ⟨hself', -⟩ := restaurant_of_chunk hk'
  obtain ⟨row, hrow, hrid, hid, hcontent⟩ := hstanding.restaurant
  rcases List.mem_cons.mp (htexts.subset List.mem_cons_self) with heq | hmem
  · obtain ⟨hids, hcontents⟩ := Prod.mk.inj heq
    exact ⟨row, hrow, hrid, hid.trans hids.symm, hcontent.trans hcontents.symm⟩
  · -- no dish has the restaurant's identifier
    obtain ⟨c, hc, hpair⟩ := List.mem_map.mp hmem
    obtain ⟨-, itemId, -, hne, hcid⟩ := of_mem_items hk hcat hc
    have hids : chunkId r itemId = chunkId r selfSuffix :=
      hcid.symm.trans ((Prod.mk.inj hpair).1.trans hself')
    exact absurd (chunkId_inj hcat.colon hcat.colon hids).2 hne

include hk hk' hcat' htexts hstanding in
/-- A dish's text is one that stands. -/
theorem dish_stands {c : Chunk ItemFacts} (hc : c ∈ k'.items) : ∃ row ∈ index.items,
    row.restaurantId = r ∧ row.id = c.id ∧ row.content = c.content := by
  obtain ⟨hself, -⟩ := restaurant_of_chunk hk
  have hmem : (c.id, c.content) ∈ k.texts :=
    htexts.subset (List.mem_cons_of_mem _ (List.mem_map.mpr ⟨c, hc, rfl⟩))
  rcases List.mem_cons.mp hmem with heq | hmem
  · obtain ⟨-, itemId, -, hne, hcid⟩ := of_mem_items hk' hcat' hc
    have hids : chunkId r itemId = chunkId r selfSuffix :=
      hcid.symm.trans ((Prod.mk.inj heq).1.trans hself)
    exact absurd (chunkId_inj hcat'.colon hcat'.colon hids).2 hne
  · obtain ⟨c', hc', hpair⟩ := List.mem_map.mp hmem
    obtain ⟨hids, hcontents⟩ := Prod.mk.inj hpair
    obtain ⟨row, hrow, hrid, hid, hcontent⟩ := hstanding.items c' hc'
    exact ⟨row, hrow, hrid, hid.trans hids, hcontent.trans hcontents⟩

include hk hk' hcat hcat' htexts hstanding

/-- **A drain of texts that stand** embeds nothing. -/
theorem refreshed_drainOne (hnamed : Named index) :
    Refreshed r p p' k' index (x.drainOne index r p') := by
  obtain ⟨hself', hrid'⟩ := restaurant_of_chunk hk'
  obtain ⟨home, hhome, hhomeRid, hhomeId, hhomeContent⟩ :=
    restaurant_stands hk hk' hcat htexts hstanding
  have hdish := fun c hc => @dish_stands _ x index r p p' k k' hk hk' hcat' htexts hstanding c hc
  obtain ⟨hembedded, hvectors⟩ := @stale_eq_nil _ x k' (index.contentsFor r)
    (by
      rw [hself']
      exact (lookup_self hnamed).mpr ⟨home, hhome, hhomeRid, hhomeId.trans hself', hhomeContent⟩)
    (fun c hc => by
      obtain ⟨row, hrow, hrid, hid, hcontent⟩ := hdish c hc
      obtain ⟨-, itemId, -, hne, hcid⟩ := of_mem_items hk' hcat' hc
      rw [hcid]
      exact (lookup_dish hnamed hne).mpr ⟨row, hrow, hrid, hid.trans hcid, hcontent⟩)
  have hdrain : (x.drainOne index r p').embedded = (stale k' (index.contentsFor r)).values ∧
      (x.drainOne index r p').index = index.replace r k' (x.vectors k' (index.contentsFor r)) := by
    unfold Recipe.drainOne
    rw [hk']
    exact ⟨rfl, rfl⟩
  have hdishes : ∀ row, row ∈ (x.drainOne index r p').index.items ↔
      (∃ c ∈ k'.items, written index.items c none = some row) ∨
        row ∈ index.items ∧ row.restaurantId ≠ r ∧ ∀ c ∈ k'.items, row.id ≠ c.id := by
    intro row
    rw [hdrain.2, mem_replace_items_iff hk' hcat']
    simp only [hvectors]
  have hrestaurants : ∀ row, row ∈ (x.drainOne index r p').index.restaurants ↔
      written index.restaurants k'.restaurant none = some row ∨
        row ∈ index.restaurants ∧ row.id ≠ k'.restaurant.id := by
    intro row
    rw [hdrain.2]
    refine mem_upsert_iff.trans ?_
    rw [hvectors]
  have hids : k'.items.map Chunk.id = p'.itemIds.map (chunkId r) := map_id_of_chunk hk'
  have hdeleted := fun row => @mem_deleted_iff _ x index r p' k' hk' hcat' row
  refine ⟨hdrain.1.trans hembedded, ?_, ?_, ?_, ?_, ?_, ?_, ?_, ?_, ?_⟩
  · exact ⟨home, hhome, hhomeId, hhomeContent,
      (hrestaurants _).mpr (.inl (written_none hhome hhomeId))⟩
  · intro c hc
    obtain ⟨row, hrow, -, hid, hcontent⟩ := hdish c hc
    exact ⟨row, hrow, hid, hcontent, (hdishes _).mpr (.inl ⟨c, hc, written_none hrow hid⟩)⟩
  · intro row hrow hr
    rcases (hdishes row).mp hrow with ⟨c, hc, hwritten⟩ | ⟨-, hother, -⟩
    · exact ⟨c, hc, (id_of_written hwritten).1⟩
    · exact absurd hr hother
  · obtain ⟨-, rfl⟩ := chunk_eq_some.mp hk'
    rfl
  · exact fun category hcategory item hitem itemId hlisted =>
      facts_of_chunk hk' hcategory hitem hlisted
  · intro row hrow
    obtain ⟨hmem, hr, hne⟩ := (hdeleted row).mp hrow
    refine ⟨hmem, fun hin => ?_⟩
    rcases (hdishes row).mp hin with ⟨c, hc, hwritten⟩ | ⟨-, hother, -⟩
    · exact hne c hc (id_of_written hwritten).1
    · exact hother hr
  · intro id
    rw [List.mem_map]
    constructor
    · rintro ⟨row, hrow, rfl⟩
      obtain ⟨hmem, hr, hne⟩ := (hdeleted row).mp hrow
      obtain ⟨c, hc, hid⟩ := hstanding.only row hmem hr
      obtain ⟨-, itemId, hlisted, -, hcid⟩ := of_mem_items hk hcat hc
      refine ⟨itemId, hlisted, fun hlisted' => ?_, hid.trans hcid⟩
      have hin : chunkId r itemId ∈ k'.items.map Chunk.id :=
        hids ▸ List.mem_map.mpr ⟨itemId, hlisted', rfl⟩
      obtain ⟨c', hc', hcid'⟩ := List.mem_map.mp hin
      exact hne c' hc' (hid.trans (hcid.trans hcid'.symm))
    · rintro ⟨itemId, hlisted, hgone, rfl⟩
      have hin : chunkId r itemId ∈ k.items.map Chunk.id :=
        map_id_of_chunk hk ▸ List.mem_map.mpr ⟨itemId, hlisted, rfl⟩
      obtain ⟨c, hc, hcid⟩ := List.mem_map.mp hin
      obtain ⟨row, hrow, hrid, hid, -⟩ := hstanding.items c hc
      refine ⟨row, (hdeleted row).mpr ⟨hrow, hrid, fun c' hc' he => hgone ?_⟩, hid.trans hcid⟩
      obtain ⟨-, itemId', hlisted', -, hcid'⟩ := of_mem_items hk' hcat' hc'
      have heq : chunkId r itemId = chunkId r itemId' :=
        hcid.symm.trans (hid.symm.trans (he.trans hcid'))
      rwa [(chunkId_inj hcat.colon hcat.colon heq).2]
  · intro row hr
    rw [hrestaurants]
    constructor
    · rintro (hwritten | ⟨hmem, -⟩)
      · exact absurd ((id_of_written hwritten).2.1.trans hrid') hr
      · exact hmem
    · intro hmem
      refine .inr ⟨hmem, fun hid => hr ?_⟩
      obtain ⟨hcolon, hown⟩ := hnamed.self row hmem
      exact (chunkId_inj hcolon hcat.colon (hown.symm.trans (hid.trans hself'))).1
  · intro row hr
    rw [hdishes]
    constructor
    · rintro (⟨c, hc, hwritten⟩ | ⟨hmem, -⟩)
      · obtain ⟨hcrid, -⟩ := of_mem_items hk' hcat' hc
        exact absurd ((id_of_written hwritten).2.1.trans hcrid) hr
      · exact hmem
    · intro hmem
      refine .inr ⟨hmem, hr, fun c hc hid => hr ?_⟩
      obtain ⟨hcolon, itemId, -, hown⟩ := hnamed.dish row hmem
      obtain ⟨-, itemId', -, -, hcid⟩ := of_mem_items hk' hcat' hc
      exact (chunkId_inj hcolon hcat.colon (hown.symm.trans (hid.trans hcid))).1

end

/-- **Kitchen churn costs no embeddings**: payloads that differ in what a kitchen changes have the
same texts under the same identifiers, and once the first has been drained, with any drains of
other restaurants after it, a drain of the second, less some dishes, embeds nothing and keeps every
vector. -/
theorem churn_free [DecidableEq D] {w : World D V} {is : List (Event D)}
    {others : List (String × Payload)}
    (hlower : ∀ s, x.lower (clean (some s)) = clean (some (x.lower s)))
    (hrun : Run (step x) Minted World.init is w) (hcat : Catalogued r p)
    (hothers : ∀ other ∈ others, other.1 ≠ r ∧ Catalogued other.1 other.2)
    (hchurned : Churned x.lower p q) (hdrops : q.Drops p') :
    (x.chunk r p).map Knowledge.texts = (x.chunk r q).map Knowledge.texts ∧
      (isIndexable p = true → ∃ k', x.chunk r p' = some k' ∧
        Refreshed r p p' k' (x.drainAll (x.drainOne w.index r p).index others)
          (x.drainOne (x.drainAll (x.drainOne w.index r p).index others) r p')) := by
  have htexts := @texts_eq x.lower x.digest hlower r p q hchurned
  refine ⟨htexts, fun hp => ?_⟩
  have hq : isIndexable q = true := isIndexable_eq hchurned ▸ hp
  have hp' : isIndexable p' = true := by
    rw [hdrops.rest]
    exact hq
  obtain ⟨k, hk⟩ := @exists_chunk x.lower x.digest r p hp
  obtain ⟨l, hl⟩ := @exists_chunk x.lower x.digest r q hq
  obtain ⟨k', hk'⟩ := @exists_chunk x.lower x.digest r p' hp'
  rw [hk, hl] at htexts
  have hsub : k'.texts.Sublist k.texts :=
    Option.some.inj htexts ▸ texts_sublist hdrops hl hk'
  have hids : p'.itemIds.Sublist p.itemIds := itemIds_eq hchurned ▸ itemIds_sublist hdrops
  have hcat' : Catalogued r p' :=
    ⟨hcat.colon, hids.nodup hcat.distinct, fun h => hcat.minted (hids.subset h)⟩
  have hnamed : Named w.index := named_of_run hrun
  obtain ⟨hnamed', hstanding⟩ := standing_drainAll hothers hk hcat (named_drainOne hcat hnamed)
    (standing_drainOne hk hcat hnamed)
  exact ⟨k', hk', refreshed_drainOne hk hk' hcat hcat' hsub hstanding hnamed'⟩

/-- Texts that are their own digests and vectors, in small letters. -/
def plain : Recipe String := ⟨eachLetter Char.toLower, fun s => s, fun s => s⟩

/-- Two dishes, as they were and as the kitchen leaves them. -/
def morning : Payload where
  city := some "Oslo"
  name := some "Fisk og vin"
  categories := [⟨some "Mains", [
    { id := some "d1", name := some "Reker", tags := ["Kald", "skalldyr"], priceCents := some 900 },
    { id := some "d2", name := some "Torsk", priceCents := some 700 }]⟩]

def evening : Payload where
  city := some "Oslo"
  name := some " Fisk  og vin"
  status := some "paused"
  categories := [⟨some "Mains ", [
    { id := some "d1", name := some "Reker", tags := ["SKALLDYR", "kald"], priceCents := some 950 },
    { id := some "d2", name := some "Torsk", priceCents := some 700, available := false }]⟩]

/-- The second dish is off the menu. -/
def night : Payload :=
  { evening with categories := evening.categories.map fun category =>
      { category with items := category.items.take 1 } }

theorem churned_evening : Churned plain.lower morning evening := by
  refine ⟨rfl, rfl, rfl, by decide +kernel, by decide +kernel, by decide +kernel, ?_⟩
  refine .cons ⟨by decide +kernel, ?_⟩ .nil
  exact .cons (by decide +kernel) (.cons (by decide +kernel) .nil)

theorem drops_night : evening.Drops night :=
  ⟨rfl, .cons ⟨rfl, List.take_sublist 1 _⟩ .nil⟩

theorem churn_free_night :
    (plain.chunk "r1" morning).map Knowledge.texts = (plain.chunk "r1" evening).map Knowledge.texts ∧
      (isIndexable morning = true → ∃ k', plain.chunk "r1" night = some k' ∧
        Refreshed "r1" morning night k'
          (plain.drainAll (plain.drainOne ⟨.empty, .empty⟩ "r1" morning).index [("r2", morning)])
          (plain.drainOne (plain.drainAll (plain.drainOne ⟨.empty, .empty⟩ "r1" morning).index
            [("r2", morning)]) "r1" night)) :=
  @churn_free Bool String plain "r1" morning evening night _ World.init [] [("r2", morning)]
    (clean_lower isSpace_toLower rfl) .nil (by decide +kernel)
    (fun other hother => by
      obtain rfl := List.mem_singleton.mp hother
      exact ⟨by decide, by decide +kernel⟩)
    churned_evening drops_night

end Assistant
