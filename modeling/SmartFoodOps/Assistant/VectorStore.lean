/-
The index: a table of restaurants' chunks and one of their dishes', each row with a vector.

* `Row`, `Index`, `contentsFor` — what is stored, and the texts that a drain compares with;
* `upsert` — a chunk with a vector is inserted, one without is an update of its row;
* `replaceRestaurant` — all the chunks of a restaurant, and none beside them;
* `mem_upsertAll`, `mem_reconcile` — the rows that this leaves, if every chunk without a
  vector has a row with its text.
-/
import SmartFoodOps.Assistant.Knowledge
import SmartFoodOps.Lib.Dict

open Keyed

namespace Assistant

variable {φ V : Type}

/-! ### Rows -/

/-- A row of `restaurant_chunks`, or of `item_chunks`. -/
structure Row (φ V : Type) where
  id : String
  restaurantId : String
  content : String
  facts : φ
  embedding : V
  deriving DecidableEq

abbrev ChunkTable (φ V : Type) := Table (Row φ V) String Row.id

def Chunk.row (c : Chunk φ) (embedding : V) : Row φ V :=
  ⟨c.id, c.restaurantId, c.content, c.facts, embedding⟩

structure Index (V : Type) where
  restaurants : ChunkTable RestaurantFacts V
  items : ChunkTable ItemFacts V

/-- `contents_for`: the text of every identifier. The restaurant's overwrites a dish's. -/
def Index.contentsFor (index : Index V) (restaurantId : String) : List (String × String) :=
  ((index.restaurants.rows.filter fun row => row.restaurantId = restaurantId).map
      fun row => (row.id, row.content))
    ++ (index.items.rows.filter fun row => row.restaurantId = restaurantId).map
      fun row => (row.id, row.content)

/-- The text of an identifier is that of its row. -/
theorem lookup_rows {t : ChunkTable φ V} {r id s : String} :
    ((t.rows.filter fun row => row.restaurantId = r).map fun row => (row.id, row.content)).lookup id =
      some s ↔ ∃ row ∈ t, row.restaurantId = r ∧ row.id = id ∧ row.content = s := by
  constructor
  · intro h
    obtain ⟨l₁, l₂, heq, -⟩ := List.lookup_eq_some_iff.mp h
    have hmem : (id, s) ∈ (t.rows.filter fun row => row.restaurantId = r).map fun row =>
        (row.id, row.content) := by
      rw [heq]
      exact List.mem_append_right _ List.mem_cons_self
    obtain ⟨row, hrow, hpair⟩ := List.mem_map.mp hmem
    obtain ⟨hrow, hr⟩ := List.mem_filter.mp hrow
    obtain ⟨hid, hs⟩ := Prod.mk.inj hpair
    exact ⟨row, hrow, of_decide_eq_true hr, hid, hs⟩
  · rintro ⟨row, hrow, hr, rfl, rfl⟩
    have hnodup : (((t.rows.filter fun row => row.restaurantId = r).map fun row =>
        (row.id, row.content)).map Prod.fst).Nodup := by
      rw [List.map_map]
      exact t.distinct.sublist (List.filter_sublist.map _)
    have hmem : (row.id, row.content) ∈ (t.rows.filter fun row => row.restaurantId = r).map fun row =>
        (row.id, row.content) :=
      List.mem_map.mpr ⟨row, List.mem_filter.mpr ⟨hrow, decide_eq_true hr⟩, rfl⟩
    obtain ⟨l₁, l₂, heq⟩ := List.append_of_mem hmem
    refine List.lookup_eq_some_iff.mpr ⟨l₁, l₂, heq, fun e he => ?_⟩
    -- a key has one entry
    rw [heq, List.map_append, List.map_cons] at hnodup
    have hne := (List.nodup_append.mp hnodup).2.2 e.1 (List.mem_map.mpr ⟨e, he, rfl⟩) row.id
      List.mem_cons_self
    simpa using hne.symm

/-! ### Writes -/

/-- `_upsert`. -/
def upsert (t : ChunkTable φ V) (c : Chunk φ) : Option V → ChunkTable φ V
  | some v => t.put (c.row v)
  | none =>
    t.modify c.id (fun row => { c.row row.embedding with id := row.id }) fun _ => rfl

def upsertAll (t : ChunkTable φ V) (chunks : List (Chunk φ × Option V)) : ChunkTable φ V :=
  chunks.foldl (fun t c => upsert t c.1 c.2) t

/-- `_reconcile`: a dish that is no longer listed is not kept. -/
def reconcile (t : ChunkTable ItemFacts V) (restaurantId : String) (keep : List String) :
    ChunkTable ItemFacts V :=
  t.deleteWhere fun row => row.restaurantId = restaurantId && row.id ∉ keep

def Index.replaceRestaurant (index : Index V) (restaurantId : String)
    (restaurant : Chunk RestaurantFacts × Option V) (items : List (Chunk ItemFacts × Option V)) :
    Index V where
  restaurants := upsert index.restaurants restaurant.1 restaurant.2
  items := reconcile (upsertAll index.items items) restaurantId (items.map fun c => c.1.id)

/-! ### What writes leave -/

variable {embed : String → V} {t : ChunkTable φ V} {c : Chunk φ} {row : Row φ V}
  {chunks : List (Chunk φ × Option V)}

/-- Every vector is that of its text. -/
def Faithful (embed : String → V) (t : ChunkTable φ V) : Prop :=
  ∀ row ∈ t, row.embedding = embed row.content

/-- The vector, if there is one, is that of the chunk's text; if there is none, that text is stored
under the chunk's identifier. -/
structure Writable (embed : String → V) (t : ChunkTable φ V) (c : Chunk φ × Option V) : Prop where
  vector : ∀ v ∈ c.2, v = embed c.1.content
  stored : c.2 = none → ∃ row ∈ t, row.id = c.1.id ∧ row.content = c.1.content

/-- **Upsert**: the chunk with the vector of its text takes the place of what had its identifier. -/
theorem mem_upsert {v : Option V} (hfaith : Faithful embed t) (hc : Writable embed t (c, v)) :
    row ∈ upsert t c v ↔ row = c.row (embed c.content) ∨ row ∈ t ∧ row.id ≠ c.id := by
  cases v with
  | some v =>
    obtain rfl : v = embed c.content := hc.vector v rfl
    exact Table.mem_put
  | none =>
    -- the row with the text has the vector of the text, and keeps it
    obtain ⟨old, hold, hid, hcontent⟩ := hc.stored rfl
    have hvector : old.embedding = embed c.content := by rw [hfaith old hold, hcontent]
    have hnew : { c.row old.embedding with id := old.id } = c.row (embed c.content) := by
      rw [hvector, hid]
      rfl
    unfold upsert
    rw [Table.mem_modify, or_comm]
    refine or_congr_left ?_
    constructor
    · rintro ⟨r, hr, hrid, rfl⟩
      obtain rfl : r = old := Table.eq_of_key hr hold (hrid.trans hid.symm)
      exact hnew
    · rintro rfl
      exact ⟨old, hold, hid, hnew.symm⟩

theorem faithful_upsert {v : Option V} (hfaith : Faithful embed t) (hc : Writable embed t (c, v)) :
    Faithful embed (upsert t c v) := by
  intro row hrow
  rcases (mem_upsert hfaith hc).mp hrow with rfl | ⟨hmem, -⟩
  · rfl
  · exact hfaith row hmem

/-- **Upserts** of chunks that differ in their identifiers: their rows, and those of no chunk. -/
theorem mem_upsertAll (hfaith : Faithful embed t) (hc : ∀ c ∈ chunks, Writable embed t c)
    (hsame : ∀ c ∈ chunks, ∀ c' ∈ chunks, c.1.id = c'.1.id → c.1 = c'.1) :
    row ∈ upsertAll t chunks ↔ (∃ c ∈ chunks, row = c.1.row (embed c.1.content)) ∨
      row ∈ t ∧ ∀ c ∈ chunks, row.id ≠ c.1.id := by
  induction chunks generalizing t with
  | nil => simp [upsertAll]
  | cons c cs ih =>
    have hhead := hc c List.mem_cons_self
    -- a later chunk still finds its text: in the row that was there, or in the one just written
    have hrest : ∀ c' ∈ cs, Writable embed (upsert t c.1 c.2) c' := by
      intro c' hc'
      refine ⟨(hc c' (List.mem_cons_of_mem _ hc')).vector, fun hnone => ?_⟩
      obtain ⟨old, hold, hid, hcontent⟩ := (hc c' (List.mem_cons_of_mem _ hc')).stored hnone
      by_cases he : c'.1.id = c.1.id
      · have hsame' : c'.1 = c.1 := hsame c' (List.mem_cons_of_mem _ hc') c List.mem_cons_self he
        exact ⟨_, (mem_upsert hfaith hhead).mpr (.inl rfl), by rw [hsame']; exact ⟨rfl, rfl⟩⟩
      · have hne : old.id ≠ c.1.id := fun h => he (hid.symm.trans h)
        exact ⟨old, (mem_upsert hfaith hhead).mpr (.inr ⟨hold, hne⟩), hid, hcontent⟩
    have hih := ih (faithful_upsert hfaith hhead) hrest fun a ha b hb =>
      hsame a (List.mem_cons_of_mem _ ha) b (List.mem_cons_of_mem _ hb)
    unfold upsertAll at hih ⊢
    rw [List.foldl_cons, hih, mem_upsert hfaith hhead, List.exists_mem_cons_iff,
      List.forall_mem_cons]
    constructor
    · rintro (h | ⟨rfl | ⟨hmem, hne⟩, hrest'⟩)
      · exact .inl (.inr h)
      · exact .inl (.inl rfl)
      · exact .inr ⟨hmem, hne, hrest'⟩
    · rintro ((rfl | h) | ⟨hmem, hne, hrest'⟩)
      · -- the head's row stands unless a later chunk, which is then the same, writes it again
        by_cases hagain : ∃ c' ∈ cs, c'.1.id = c.1.id
        · obtain ⟨c', hc', he⟩ := hagain
          have hsame' : c'.1 = c.1 := hsame c' (List.mem_cons_of_mem _ hc') c List.mem_cons_self he
          exact .inl ⟨c', hc', by rw [hsame']⟩
        · exact .inr ⟨.inl rfl, fun c' hc' he => hagain ⟨c', hc', he.symm⟩⟩
      · exact .inl h
      · exact .inr ⟨.inr ⟨hmem, hne⟩, hrest'⟩

/-- Of the restaurant the chunks' rows are left, and of the others what no chunk took the place
of. -/
theorem mem_reconcile {t : ChunkTable ItemFacts V} {row : Row ItemFacts V}
    {chunks : List (Chunk ItemFacts × Option V)} {restaurantId : String}
    (hfaith : Faithful embed t) (hc : ∀ c ∈ chunks, Writable embed t c)
    (hsame : ∀ c ∈ chunks, ∀ c' ∈ chunks, c.1.id = c'.1.id → c.1 = c'.1) :
    row ∈ reconcile (upsertAll t chunks) restaurantId (chunks.map fun c => c.1.id) ↔
      (∃ c ∈ chunks, row = c.1.row (embed c.1.content)) ∨
        row ∈ t ∧ row.restaurantId ≠ restaurantId ∧ ∀ c ∈ chunks, row.id ≠ c.1.id := by
  unfold reconcile
  rw [Table.mem_deleteWhere, mem_upsertAll hfaith hc hsame]
  constructor
  · rintro ⟨hrow | ⟨hmem, hne⟩, hkept⟩
    · exact .inl hrow
    · refine .inr ⟨hmem, fun he => ?_, hne⟩
      have hkeep : row.id ∉ chunks.map fun c => c.1.id := by
        intro hin
        obtain ⟨c, hcmem, hid⟩ := List.mem_map.mp hin
        exact hne c hcmem hid.symm
      simp [he, hkeep] at hkept
  · rintro (⟨c, hcmem, rfl⟩ | ⟨hmem, hother, hne⟩)
    · refine ⟨.inl ⟨c, hcmem, rfl⟩, ?_⟩
      have hkeep : (c.1.row (embed c.1.content)).id ∈ chunks.map fun c => c.1.id :=
        List.mem_map.mpr ⟨c, hcmem, rfl⟩
      simp [hkeep]
    · exact ⟨.inr ⟨hmem, hne⟩, by simp [hother]⟩

end Assistant
