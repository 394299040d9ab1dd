/-
What the drains leave in the index, if nothing comes between their reads and their writes.

* `Holds` — the index has exactly the chunks of what is known of a restaurant;
* `sound_replace`, `holds_replace`, `holds_replace_other` — what a write does to the index;
* `Inv`, `inv_step` — the invariant of the steps that are `Intact`.
-/
import SmartFoodOps.Assistant.Drain

open Machine Keyed

namespace Assistant

variable {D V : Type}

/-! ### What the index holds -/

/-- The rows of the restaurant are the chunks of what is known of it, each with the vector of its
text. -/
structure Holds (embed : String → V) (index : Index V) (restaurantId : String)
    (known : Option Knowledge) : Prop where
  restaurant : ∀ row, row ∈ index.restaurants ∧ row.restaurantId = restaurantId ↔
    ∃ k ∈ known, row = k.restaurant.row (embed k.restaurant.content)
  items : ∀ row, row ∈ index.items ∧ row.restaurantId = restaurantId ↔
    ∃ k ∈ known, ∃ c ∈ k.items, row = c.row (embed c.content)

/-- Vectors are those of their texts, and identifiers begin with their restaurant's. -/
structure Sound (embed : String → V) (index : Index V) : Prop where
  restaurants : Faithful embed index.restaurants
  items : Faithful embed index.items
  self : ∀ row ∈ index.restaurants,
    ':' ∉ row.restaurantId.toList ∧ row.id = chunkId row.restaurantId selfSuffix
  dish : ∀ row ∈ index.items,
    ':' ∉ row.restaurantId.toList ∧ ∃ itemId, row.id = chunkId row.restaurantId itemId

section

variable {x : Recipe V} {index : Index V} {r r' : String} {p : Payload} {k : Knowledge}
  {vectors : Dict String V} {stored : List (String × String)}

/-- A digest's vector is that of the text with the digest. -/
theorem eq_embed_of_get_vectors (hk : x.chunk r p = some k) (hclear : p.Clear x.lower x.digest r)
    {φ : Type} {c : Chunk φ} (hdigest : c.contentHash = x.digest c.content)
    (hc : c.content = k.restaurant.content ∨ ∃ c' ∈ k.items, c.content = c'.content) {v : V}
    (hv : (x.vectors k stored).get c.contentHash = some v) : v = x.embed c.content := by
  obtain ⟨-, rfl⟩ := chunk_eq_some.mp hk
  unfold Recipe.vectors stale at hv
  rw [Dict.get_mapValues, Dict.get_gather_getD, Option.map_map] at hv
  obtain ⟨t, ht, rfl⟩ := Option.map_eq_some_iff.mp hv
  have hhash : t.2.1 = c.contentHash := by simpa using List.find?_some ht
  have hmem := (List.mem_filter.mp (List.mem_of_find?_eq_some ht)).1
  have htext : ∀ s, s = (restaurantChunk x.lower x.digest r p).content ∨
      (∃ c' ∈ itemChunks x.lower x.digest r p, s = c'.content) →
      s ∈ (restaurantChunk x.lower x.digest r p).content ::
        (itemChunks x.lower x.digest r p).map Chunk.content := by
    rintro s (rfl | ⟨c', hc', rfl⟩)
    · exact List.mem_cons_self
    · exact List.mem_cons_of_mem _ (List.mem_map.mpr ⟨c', hc', rfl⟩)
  have hown : t.2.1 = x.digest t.2.2 ∧ t.2.2 ∈ (restaurantChunk x.lower x.digest r p).content ::
      (itemChunks x.lower x.digest r p).map Chunk.content := by
    rcases List.mem_cons.mp hmem with rfl | hitem
    · exact ⟨rfl, List.mem_cons_self⟩
    · obtain ⟨c', hc', rfl⟩ := List.mem_map.mp hitem
      exact ⟨(of_mem_itemChunks hc').2.2, htext _ (.inr ⟨c', hc', rfl⟩)⟩
  have heq : x.digest t.2.2 = x.digest c.content := hown.1.symm.trans (hhash.trans hdigest)
  exact congrArg x.embed (hclear.texts _ hown.2 _ (htext _ hc) heq)

/-- The chunks with the vectors there are can be written. -/
theorem writable_of_stands (hk : x.chunk r p = some k) (hclear : p.Clear x.lower x.digest r)
    {φ : Type} {t : ChunkTable φ V} {c : Chunk φ} (hdigest : c.contentHash = x.digest c.content)
    (hc : c.content = k.restaurant.content ∨ ∃ c' ∈ k.items, c.content = c'.content)
    (hstands : Stands t (x.vectors k stored) c) :
    Writable x.embed t (c, (x.vectors k stored).get c.contentHash) :=
  ⟨fun _ hv => eq_embed_of_get_vectors hk hclear hdigest hc hv, hstands⟩

/-! ### Writes -/

section

variable (hk : x.chunk r p = some k) (hclear : p.Clear x.lower x.digest r)
  (hsound : Sound x.embed index)
  (hself : Stands index.restaurants (x.vectors k stored) k.restaurant)
  (hitems : ∀ c ∈ k.items, Stands index.items (x.vectors k stored) c)

include hk hclear hsound hself in
theorem mem_replace_restaurants {row : Row RestaurantFacts V} :
    row ∈ (index.replace r k (x.vectors k stored)).restaurants ↔
      row = k.restaurant.row (x.embed k.restaurant.content) ∨
        row ∈ index.restaurants ∧ row.id ≠ k.restaurant.id := by
  refine mem_upsert hsound.restaurants (writable_of_stands hk hclear ?_ (.inl rfl) hself)
  obtain ⟨-, rfl⟩ := chunk_eq_some.mp hk
  rfl

include hk hclear hsound hitems in
theorem mem_replace_items {row : Row ItemFacts V} :
    row ∈ (index.replace r k (x.vectors k stored)).items ↔
      (∃ c ∈ k.items, row = c.row (x.embed c.content)) ∨
        row ∈ index.items ∧ row.restaurantId ≠ r ∧ ∀ c ∈ k.items, row.id ≠ c.id := by
  have hwritable : ∀ c ∈ k.items.map fun c => (c, (x.vectors k stored).get c.contentHash),
      Writable x.embed index.items c := by
    intro c hc
    obtain ⟨c, hmem, rfl⟩ := List.mem_map.mp hc
    refine writable_of_stands hk hclear ?_ (.inr ⟨c, hmem, rfl⟩) (hitems c hmem)
    obtain ⟨-, rfl⟩ := chunk_eq_some.mp hk
    exact (of_mem_itemChunks hmem).2.2
  have hsame : ∀ c ∈ k.items.map fun c => (c, (x.vectors k stored).get c.contentHash),
      ∀ c' ∈ k.items.map fun c => (c, (x.vectors k stored).get c.contentHash),
        c.1.id = c'.1.id → c.1 = c'.1 := by
    intro c hc c' hc' hid
    obtain ⟨c, hmem, rfl⟩ := List.mem_map.mp hc
    obtain ⟨c', hmem', rfl⟩ := List.mem_map.mp hc'
    obtain ⟨-, rfl⟩ := chunk_eq_some.mp hk
    exact hclear.items c hmem c' hmem' hid
  refine (mem_reconcile hsound.items hwritable hsame).trans ?_
  simp only [List.mem_map, exists_exists_and_eq_and, forall_exists_index, and_imp,
    forall_apply_eq_imp_iff₂]

include hk hclear hsound hself hitems

theorem sound_replace : Sound x.embed (index.replace r k (x.vectors k stored)) := by
  have hrestaurants := @mem_replace_restaurants _ x index r p k stored hk hclear hsound hself
  have hdishes := @mem_replace_items _ x index r p k stored hk hclear hsound hitems
  constructor
  · intro row hrow
    rcases hrestaurants.mp hrow with rfl | ⟨hmem, -⟩
    · rfl
    · exact hsound.restaurants row hmem
  · intro row hrow
    rcases hdishes.mp hrow with ⟨c, -, rfl⟩ | ⟨hmem, -⟩
    · rfl
    · exact hsound.items row hmem
  · intro row hrow
    rcases hrestaurants.mp hrow with rfl | ⟨hmem, -⟩
    · obtain ⟨-, rfl⟩ := chunk_eq_some.mp hk
      exact ⟨hclear.colon, rfl⟩
    · exact hsound.self row hmem
  · intro row hrow
    rcases hdishes.mp hrow with ⟨c, hc, rfl⟩ | ⟨hmem, -⟩
    · obtain ⟨-, rfl⟩ := chunk_eq_some.mp hk
      obtain ⟨hid, hrid, -⟩ := of_mem_itemChunks hc
      show ':' ∉ c.restaurantId.toList ∧ ∃ itemId, c.id = chunkId c.restaurantId itemId
      rw [hrid]
      exact ⟨hclear.colon, _, hid⟩
    · exact hsound.dish row hmem

/-- **A write** leaves of its restaurant what it writes. -/
theorem holds_replace : Holds x.embed (index.replace r k (x.vectors k stored)) r (some k) := by
  have hrestaurants := @mem_replace_restaurants _ x index r p k stored hk hclear hsound hself
  have hdishes := @mem_replace_items _ x index r p k stored hk hclear hsound hitems
  obtain ⟨-, rfl⟩ := chunk_eq_some.mp hk
  constructor
  · intro row
    rw [hrestaurants]
    constructor
    · rintro ⟨hrow | ⟨hmem, hne⟩, hrid⟩
      · exact ⟨_, rfl, hrow⟩
      · -- the restaurant's row has the restaurant's identifier
        have hid := (hsound.self row hmem).2
        rw [hrid] at hid
        exact absurd hid hne
    · rintro ⟨k, hk, rfl⟩
      cases hk
      exact ⟨.inl rfl, rfl⟩
  · intro row
    rw [hdishes]
    constructor
    · rintro ⟨hrow | ⟨-, hne, -⟩, hrid⟩
      · exact ⟨_, rfl, hrow⟩
      · exact absurd hrid hne
    · rintro ⟨k, hk, c, hc, rfl⟩
      cases hk
      exact ⟨.inl ⟨c, hc, rfl⟩, (of_mem_itemChunks hc).2.1⟩

/-- **A write** leaves of the other restaurants what was there. -/
theorem holds_replace_other {known : Option Knowledge} (hr : r' ≠ r)
    (h : Holds x.embed index r' known) :
    Holds x.embed (index.replace r k (x.vectors k stored)) r' known := by
  have hrestaurants := @mem_replace_restaurants _ x index r p k stored hk hclear hsound hself
  have hdishes := @mem_replace_items _ x index r p k stored hk hclear hsound hitems
  obtain ⟨-, rfl⟩ := chunk_eq_some.mp hk
  constructor
  · intro row
    rw [← h.restaurant row, hrestaurants]
    constructor
    · rintro ⟨rfl | ⟨hmem, -⟩, hrid⟩
      · exact absurd hrid.symm hr
      · exact ⟨hmem, hrid⟩
    · rintro ⟨hmem, hrid⟩
      refine ⟨.inr ⟨hmem, fun hid => hr ?_⟩, hrid⟩
      obtain ⟨hcolon, hown⟩ := hsound.self row hmem
      rw [hrid] at hcolon hown
      exact (chunkId_inj hcolon hclear.colon (hown.symm.trans hid)).1
  · intro row
    rw [← h.items row, hdishes]
    constructor
    · rintro ⟨⟨c, hc, rfl⟩ | ⟨hmem, -⟩, hrid⟩
      · exact absurd (hrid.symm.trans (of_mem_itemChunks hc).2.1) hr
      · exact ⟨hmem, hrid⟩
    · rintro ⟨hmem, hrid⟩
      refine ⟨.inr ⟨hmem, fun he => hr (hrid.symm.trans he), fun c hc hid => hr ?_⟩, hrid⟩
      obtain ⟨hcolon, itemId, hown⟩ := hsound.dish row hmem
      rw [hrid] at hcolon hown
      exact (chunkId_inj hcolon hclear.colon
        (hown.symm.trans (hid.trans (of_mem_itemChunks hc).1))).1

end

end

/-! ### The invariant -/

variable {x : Recipe V} {w w' : World D V}

/-- A drain's rows were queued, and its vectors are those of the texts that it found changed. -/
structure Earned (x : Recipe V) (queued : List (String × Payload)) (pass : Pass V) : Prop where
  rows : ∀ row ∈ pass.rows, (row.restaurantId, row.payload) ∈ queued
  vectors : ∀ row ∈ pass.rows.head?, ∀ vectors ∈ pass.phase.vectors,
    ∀ k ∈ x.chunk row.restaurantId row.payload, ∃ stored, vectors = x.vectors k stored

structure Inv (x : Recipe V) (w : World D V) : Prop where
  sound : Sound x.embed w.index
  indexable : ∀ q ∈ w.queued, isIndexable q.2 = true
  clear : ∀ q ∈ w.queued, q.2.Clear x.lower x.digest q.1
  queue : ∀ row ∈ w.queue, w.latest row.restaurantId = some row.payload
  holds : ∀ r, w.queue.find r = none → Holds x.embed w.index r (w.known x r)
  passes : ∀ d, Earned x w.queued (w.passes d)

theorem inv_init : Inv x (World.init : World D V) where
  sound := ⟨fun _ h => absurd h Table.not_mem_empty, fun _ h => absurd h Table.not_mem_empty,
    fun _ h => absurd h Table.not_mem_empty, fun _ h => absurd h Table.not_mem_empty⟩
  indexable _ h := absurd h List.not_mem_nil
  clear _ h := absurd h List.not_mem_nil
  queue _ h := absurd h Table.not_mem_empty
  holds _ _ := by
    constructor
    · intro row
      exact ⟨fun h => absurd h.1 Table.not_mem_empty, fun ⟨_, hk, _⟩ => nomatch hk⟩
    · intro row
      exact ⟨fun h => absurd h.1 Table.not_mem_empty, fun ⟨_, hk, _⟩ => nomatch hk⟩
  passes _ := ⟨fun _ h => absurd h List.not_mem_nil, fun _ h => nomatch h⟩

theorem mem_queued_of_latest {r : String} {p : Payload} (h : w.latest r = some p) :
    (r, p) ∈ w.queued := by
  obtain ⟨q, hq, rfl⟩ := Option.map_eq_some_iff.mp h
  have hr : q.1 = r := by simpa using List.find?_some hq
  rw [← hr]
  exact List.mem_of_find?_eq_some hq

/-- A drain that reads has no vectors. -/
theorem earned_reading {queued : List (String × Payload)} {rows : List PendingRow}
    (h : ∀ row ∈ rows, (row.restaurantId, row.payload) ∈ queued) :
    Earned x queued (⟨rows, .reading⟩ : Pass V) :=
  ⟨h, fun _ _ _ hv => nomatch hv⟩

theorem Earned.mono {queued queued' : List (String × Payload)} {pass : Pass V}
    (h : Earned x queued pass) (hsub : ∀ q ∈ queued, q ∈ queued') : Earned x queued' pass :=
  ⟨fun row hrow => hsub _ (h.rows row hrow), h.vectors⟩

/-- What is queued of each restaurant, once a payload has been staged. -/
theorem find_stage {queue : Queue} {r r' : String} {p : Payload} {now debounce : ℕ} :
    (stage queue r p now debounce).find r' = if r = r' then
      some ((queue.find r').elim ⟨r, p, now + debounce, now⟩ fun old => { old with
        payload := p
        dueAt := if old.dueAt < now + debounce then old.dueAt else now + debounce })
      else queue.find r' := Table.find_insertOr fun _ hold => hold

theorem latest_cons_of_ne {r r' : String} {p : Payload} (hr : r' ≠ r) {queue : Queue}
    {index : Index V} {passes : D → Pass V} :
    (⟨queue, index, passes, (r, p) :: w.queued⟩ : World D V).latest r' = w.latest r' := by
  unfold World.latest
  rw [List.find?_cons_of_neg (by simpa using Ne.symm hr)]

/-- **The handler**: what it queues is the latest, and the restaurant is queued. -/
theorem inv_handle {r : String} {p : Payload} {now debounce : ℕ} (h : Inv x w)
    (hi : isIndexable p = true) (hp : p.Clear x.lower x.digest r) :
    Inv x { w with queue := stage w.queue r p now debounce, queued := (r, p) :: w.queued } := by
  refine ⟨h.sound, ?_, ?_, ?_, ?_, fun d => (h.passes d).mono fun q => List.mem_cons_of_mem _⟩
  · intro q hq
    rcases List.mem_cons.mp hq with rfl | hq
    · exact hi
    · exact h.indexable q hq
  · intro q hq
    rcases List.mem_cons.mp hq with rfl | hq
    · exact hp
    · exact h.clear q hq
  · intro row hrow
    have hrow' := Table.mem_iff_find.mp hrow
    rw [find_stage] at hrow'
    by_cases hr : r = row.restaurantId
    · rw [if_pos hr] at hrow'
      have hpayload : row.payload = p := by
        rw [← Option.some.inj hrow']
        cases w.queue.find row.restaurantId <;> rfl
      unfold World.latest
      rw [List.find?_cons_of_pos (by simpa using hr), hpayload]
      rfl
    · rw [if_neg hr] at hrow'
      rw [latest_cons_of_ne (Ne.symm hr)]
      exact h.queue row (Table.mem_iff_find.mpr hrow')
  · intro r' hnone
    have hne : r' ≠ r := by
      rintro rfl
      rw [find_stage, if_pos rfl] at hnone
      cases hnone
    rw [find_stage, if_neg (Ne.symm hne)] at hnone
    have hknown := h.holds r' hnone
    unfold World.known at hknown ⊢
    rw [latest_cons_of_ne hne]
    exact hknown

theorem mem_complete {queue : Queue} {r : String} {p : Payload} {row : PendingRow} :
    row ∈ complete queue r p ↔ row ∈ queue ∧ ¬ (row.restaurantId = r ∧ row.payload = p) := by
  unfold complete
  rw [Table.mem_deleteWhere]
  simp

/-- A restaurant that is not queued any more was queued with the payload, or had not been. -/
theorem find_of_find_complete {queue : Queue} {r r' : String} {p : Payload}
    (h : (complete queue r p).find r' = none) :
    queue.find r' = none ∨ r' = r ∧ ∃ row ∈ queue, row.restaurantId = r ∧ row.payload = p := by
  rcases Option.eq_none_or_eq_some (queue.find r') with hnone | ⟨row, hrow⟩
  · exact .inl hnone
  · obtain ⟨hmem, rfl⟩ := Table.find_eq_some.mp hrow
    by_cases hgone : row.restaurantId = r ∧ row.payload = p
    · exact .inr ⟨hgone.1, row, hmem, hgone⟩
    · exact absurd rfl (Table.find_eq_none.mp h row (mem_complete.mpr ⟨hmem, hgone⟩))

/-- **A write**: the restaurant is indexed as it was queued last, or it is still queued. -/
theorem inv_write {row : PendingRow} {k : Knowledge} {stored : List (String × String)}
    (h : Inv x w) (hqueued : (row.restaurantId, row.payload) ∈ w.queued)
    (hk : x.chunk row.restaurantId row.payload = some k)
    (hok : Uncrossed x w row (x.vectors k stored)) :
    Inv x (w.write row k (x.vectors k stored)) := by
  obtain ⟨hself, hitems, hlast⟩ := hok k hk
  have hclear := h.clear _ hqueued
  refine ⟨sound_replace hk hclear h.sound hself hitems, h.indexable, h.clear, ?_, ?_, h.passes⟩
  · intro row' hrow'
    exact h.queue row' (mem_complete.mp hrow').1
  · intro r hnone
    by_cases hr : r = row.restaurantId
    · -- what was completed was the latest, and what was no longer queued is it by the condition
      have hknown : w.known x row.restaurantId = some k := by
        rcases find_of_find_complete hnone with hnone | ⟨-, row', hmem, hrid, hpayload⟩
        · exact hlast (hr ▸ hnone)
        · have hlatest := h.queue row' hmem
          rw [hrid, hpayload] at hlatest
          unfold World.known
          rw [hlatest]
          exact hk
      subst hr
      show Holds x.embed _ _ (w.known x row.restaurantId)
      rw [hknown]
      exact holds_replace hk hclear h.sound hself hitems
    · rcases find_of_find_complete hnone with hnone | ⟨he, -⟩
      · exact holds_replace_other hk hclear h.sound hself hitems hr (h.holds r hnone)
      · exact absurd he hr

variable [DecidableEq D] {d : D} {e : Event D}

/-- A drain that has gone on changes nothing else. -/
theorem Inv.setPass {pass : Pass V} (h : Inv x w) (hpass : Earned x w.queued pass) :
    Inv x (w.setPass d pass) := by
  refine ⟨h.sound, h.indexable, h.clear, h.queue, h.holds, fun d' => ?_⟩
  by_cases hd : d' = d
  · subst hd
    show Earned x w.queued (Function.update w.passes d' pass d')
    rw [Function.update_self]
    exact hpass
  · show Earned x w.queued (Function.update w.passes d pass d')
    rw [Function.update_of_ne hd]
    exact h.passes d'

/-- **Step.** -/
theorem inv_step (h : Inv x w) (hok : Intact x w e) (hs : step x w e = some w') : Inv x w' := by
  cases e with
  | handle r p now debounce =>
    simp only [step] at hs
    split at hs
    · next hp =>
      cases hs
      exact inv_handle h hp (hok hp)
    · cases hs
      exact h
  | due d now limit rows =>
    simp only [step] at hs
    split at hs
    · next hdue =>
      cases hs
      refine h.setPass (earned_reading fun row hrow => ?_)
      exact mem_queued_of_latest (h.queue row (hdue.2.1 row hrow).1)
    · cases hs
  | discard d =>
    simp only [step] at hs
    rcases hpass : w.passes d with ⟨_ | ⟨row, rest⟩, _ | stored | vectors⟩ <;> rw [hpass] at hs <;>
      try cases hs
    -- the handler queues nothing that has no chunks
    have hqueued := (h.passes d).rows row (by rw [hpass]; exact List.mem_cons_self)
    obtain ⟨k, hk⟩ := @exists_chunk x.lower x.digest row.restaurantId _ (h.indexable _ hqueued)
    have hchunk : x.chunk row.restaurantId row.payload = some k := hk
    simp only [hchunk, reduceCtorEq] at hs
  | readTexts d =>
    simp only [step] at hs
    rcases hpass : w.passes d with ⟨_ | ⟨row, rest⟩, _ | stored | vectors⟩ <;> rw [hpass] at hs <;>
      try cases hs
    obtain ⟨k, -, rfl⟩ := Option.map_eq_some_iff.mp hs
    have hrows := (h.passes d).rows
    rw [hpass] at hrows
    exact h.setPass ⟨hrows, fun _ _ _ hv => nomatch hv⟩
  | embed d =>
    simp only [step] at hs
    rcases hpass : w.passes d with ⟨_ | ⟨row, rest⟩, _ | stored | vectors⟩ <;> rw [hpass] at hs <;>
      try cases hs
    obtain ⟨k, hk, rfl⟩ := Option.map_eq_some_iff.mp hs
    have hrows := (h.passes d).rows
    rw [hpass] at hrows
    refine h.setPass ⟨hrows, ?_⟩
    rintro _ ⟨⟩ _ ⟨⟩ k' hk'
    obtain rfl : k' = k := Option.some.inj (hk'.symm.trans hk)
    exact ⟨stored, rfl⟩
  | write d =>
    simp only [step] at hs
    rcases hpass : w.passes d with ⟨_ | ⟨row, rest⟩, _ | stored | vectors⟩ <;> rw [hpass] at hs <;>
      try cases hs
    obtain ⟨k, hk, rfl⟩ := Option.map_eq_some_iff.mp hs
    have hearned := h.passes d
    rw [hpass] at hearned
    obtain ⟨stored, rfl⟩ := hearned.vectors row rfl vectors rfl k hk
    have huncrossed : Uncrossed x w row (x.vectors k stored) := by
      have hok' : ∀ row ∈ (w.passes d).rows.head?, ∀ vectors ∈ (w.passes d).phase.vectors,
        Uncrossed x w row vectors := hok
      rw [hpass] at hok'
      exact hok' row rfl _ rfl
    have hwritten := inv_write h (hearned.rows row List.mem_cons_self) hk huncrossed
    exact hwritten.setPass (earned_reading fun row' hrow' =>
      hearned.rows row' (List.mem_cons_of_mem _ hrow'))
  | fail d =>
    simp only [step] at hs
    cases hs
    exact h.setPass (earned_reading fun row hrow => absurd hrow List.not_mem_nil)

end Assistant
