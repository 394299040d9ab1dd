/-
What a restaurant contributes to the index.

* `Payload` — a change of the catalog, as far as it is read here;
* `clean`, `slugs`, `restaurantText`, `itemText` — the recipe of the text;
* `RestaurantText.not_itemText` — no restaurant's text is that of a dish;
* `Chunk`, `chunk` — the restaurant's chunk and its dishes';
* `Payload.Clear` — its dishes have identifiers of their own, and its texts digests of their own.

Lower case and the digest are parameters: what they are is nothing to the index.
-/
import SmartFoodOps.Lib.Separated
import Mathlib.Data.List.Sort
import Mathlib.Data.List.Dedup
import Mathlib.Data.String.Basic

namespace Assistant

/-! ### Payloads -/

structure MenuItem where
  id : Option String
  name : Option String := none
  description : Option String := none
  tags : List String := []
  priceCents : Option ℤ := none
  available : Bool := false
  deriving DecidableEq

structure MenuCategory where
  name : Option String := none
  items : List MenuItem
  deriving DecidableEq

/-- The state of a restaurant, with what an older event can lack. -/
structure Payload where
  kind : Option String := none
  city : Option String := none
  cuisines : List String := []
  brandId : Option String := none
  status : Option String := none
  name : Option String := none
  branchLabel : Option String := none
  categories : List MenuCategory := []
  deriving DecidableEq

/-! ### Text -/

/-- What `\s` matches. -/
def isSpace (c : Char) : Bool :=
  let n := c.toNat
  (9 ≤ n && n ≤ 13) || (28 ≤ n && n ≤ 32) || n = 0x85 || n = 0xa0 || n = 0x1680 ||
    (0x2000 ≤ n && n ≤ 0x200a) || n = 0x2028 || n = 0x2029 || n = 0x202f || n = 0x205f ||
    n = 0x3000

/-- `_clean`: the words, one space apart. -/
def clean (text : Option String) : String :=
  let words := ((text.getD "").toList.splitOnP isSpace).filter fun w => ! w.isEmpty
  " ".intercalate (words.map String.ofList)

/-- `_slugs`: in lower case, once each, sorted. -/
def slugs (lower : String → String) (values : List String) : List String :=
  let cleaned := (values.map fun v => lower (clean (some v))).dedup
  (cleaned.filter fun slug => ! slug.isEmpty).insertionSort (· ≤ ·)

/-- `MAX_DESCRIPTION_CHARS`. -/
def maxDescriptionChars : ℕ := 600

/-- `_restaurant_text`. -/
def restaurantText (name branchLabel : String) (cuisines : List String) : String :=
  let display := if branchLabel.isEmpty then name else name ++ " — " ++ branchLabel
  let lines := display :: if cuisines.isEmpty then [] else ["Cuisines: " ++ ", ".intercalate cuisines]
  "\n".intercalate lines

/-- `_item_text`: without the restaurant's name, so that branches share a text. -/
def itemText (name description category : String) (tags cuisines : List String) : String :=
  let lines := [name]
    ++ (if description.isEmpty then []
        else [String.ofList (description.toList.take maxDescriptionChars)])
    ++ ["Category: " ++ category]
    ++ (if tags.isEmpty then [] else ["Tags: " ++ ", ".intercalate tags])
    ++ if cuisines.isEmpty then [] else ["Cuisines: " ++ ", ".intercalate cuisines]
  "\n".intercalate lines

/-! ### Lines -/

def OneLine (s : String) : Prop := '\n' ∉ s.toList

theorem mem_toList_intercalate {c : Char} {sep : String} {l : List String}
    (h : c ∈ (sep.intercalate l).toList) : c ∈ sep.toList ∨ ∃ s ∈ l, c ∈ s.toList := by
  induction l with
  | nil =>
    rw [String.intercalate_nil] at h
    cases h
  | cons s l ih =>
    rcases l with _ | ⟨t, l⟩
    · rw [String.intercalate_singleton] at h
      exact .inr ⟨s, List.mem_cons_self, h⟩
    · rw [String.intercalate_cons_cons, String.toList_append, String.toList_append,
        List.mem_append, List.mem_append] at h
      rcases h with (h | h) | h
      · exact .inr ⟨s, List.mem_cons_self, h⟩
      · exact .inl h
      · exact (ih h).imp_right fun ⟨s', hs', hc⟩ => ⟨s', List.mem_cons_of_mem _ hs', hc⟩

/-- A cleaned text has no space but the blanks between its words. -/
theorem oneLine_clean (text : Option String) : OneLine (clean text) := by
  intro h
  rcases mem_toList_intercalate h with h | ⟨s, hs, hc⟩
  · revert h
    decide
  · obtain ⟨word, hword, rfl⟩ := List.mem_map.mp hs
    rw [String.toList_ofList] at hc
    have hno := Separated.not_of_mem_splitOnP (List.mem_filter.mp hword).1 hc
    revert hno
    decide

theorem oneLine_slugs {lower : String → String} (hlower : ∀ s, OneLine s → OneLine (lower s))
    {values : List String} {slug : String} (h : slug ∈ slugs lower values) : OneLine slug := by
  have hmem := List.mem_dedup.mp (List.mem_filter.mp ((List.mem_insertionSort _).mp h)).1
  obtain ⟨v, -, rfl⟩ := List.mem_map.mp hmem
  exact hlower _ (oneLine_clean _)

theorem exists_intercalate_cons (sep s : String) (l : List String) :
    ∃ t, sep.intercalate (s :: l) = s ++ t := by
  rcases l with _ | ⟨t, l⟩
  · exact ⟨"", by rw [String.intercalate_singleton, String.append_empty]⟩
  · exact ⟨_, by rw [String.intercalate_cons_cons, String.append_assoc]⟩

/-- A dish's text goes on with its category, or has a third line. -/
theorem exists_itemText (name description category : String) (tags cuisines : List String) :
    ∃ rest, itemText name description category tags cuisines = name ++ "\n" ++ rest ∧
      ('\n' ∈ rest.toList ∨ ∃ t, rest = "Category: " ++ t) := by
  unfold itemText
  simp only [List.append_assoc, List.cons_append, List.nil_append]
  split
  · rw [List.nil_append, String.intercalate_cons_cons]
    obtain ⟨t, ht⟩ := exists_intercalate_cons "\n" ("Category: " ++ category)
      ((if tags.isEmpty then [] else ["Tags: " ++ ", ".intercalate tags]) ++
        if cuisines.isEmpty then [] else ["Cuisines: " ++ ", ".intercalate cuisines])
    exact ⟨_, rfl, .inr ⟨category ++ t, by rw [ht, String.append_assoc]⟩⟩
  · rw [List.cons_append, List.nil_append, String.intercalate_cons_cons,
      String.intercalate_cons_cons]
    refine ⟨_, rfl, .inl ?_⟩
    rw [String.toList_append, String.toList_append]
    exact List.mem_append_left _ (List.mem_append_right _ List.mem_cons_self)

def RestaurantText (s : String) : Prop :=
  ∃ name branchLabel cuisines, OneLine name ∧ OneLine branchLabel ∧
    (∀ cuisine ∈ cuisines, OneLine cuisine) ∧ s = restaurantText name branchLabel cuisines

def ItemText (s : String) : Prop :=
  ∃ name description category tags cuisines, OneLine name ∧
    s = itemText name description category tags cuisines

/-- **The second line** of a restaurant's text is of its cuisines, and the last. -/
theorem RestaurantText.not_itemText {s : String} (h : RestaurantText s) : ¬ ItemText s := by
  rintro ⟨name', description, category, tags, cuisines', hname', heq⟩
  obtain ⟨name, branchLabel, cuisines, hname, hlabel, hcuisines, rfl⟩ := h
  obtain ⟨rest, hitem, hrest⟩ := exists_itemText name' description category tags cuisines'
  have hdisplay : OneLine (if branchLabel.isEmpty then name else name ++ " — " ++ branchLabel) := by
    split
    · exact hname
    · unfold OneLine at hname hlabel ⊢
      rw [String.toList_append, String.toList_append, List.mem_append, List.mem_append]
      rintro ((h | h) | h)
      · exact hname h
      · revert h
        decide
      · exact hlabel h
  rw [hitem, restaurantText] at heq
  generalize (if branchLabel.isEmpty then name else name ++ " — " ++ branchLabel) = display at *
  have hlist := congrArg String.toList heq
  split at hlist
  · rw [String.intercalate_singleton, String.toList_append, String.toList_append] at hlist
    refine hdisplay (hlist ▸ ?_)
    exact List.mem_append_left _ (List.mem_append_right _ List.mem_cons_self)
  · rw [String.intercalate_cons_cons, String.intercalate_singleton] at hlist
    simp only [String.toList_append, List.append_assoc] at hlist
    have hsecond : "Cuisines: ".toList ++ (", ".intercalate cuisines).toList = rest.toList :=
      (Separated.eq_of_append_cons_eq hdisplay hname' hlist).2
    have hcuisine : ∀ c ∈ (", ".intercalate cuisines).toList, c ≠ '\n' := by
      rintro c hc rfl
      rcases mem_toList_intercalate hc with h | ⟨s, hs, h⟩
      · revert h
        decide
      · exact hcuisines s hs h
    rcases hrest with hthird | ⟨t, rfl⟩
    · rw [← hsecond] at hthird
      rcases List.mem_append.mp hthird with h | h
      · revert h
        decide
      · exact hcuisine _ h rfl
    · rw [String.toList_append] at hsecond
      have hthree := congrArg (fun l => l[1]?) hsecond
      revert hthree
      simp

/-! ### Chunks -/

/-- A text to be embedded, and the columns `facts` beside it. -/
structure Chunk (φ : Type) where
  id : String
  restaurantId : String
  content : String
  contentHash : String
  facts : φ
  deriving DecidableEq

structure RestaurantFacts where
  city : String
  brandId : Option String
  cuisines : List String
  status : String
  deriving DecidableEq

structure ItemFacts where
  itemId : String
  city : String
  brandId : Option String
  cuisines : List String
  category : String
  tags : List String
  name : String
  priceCents : ℤ
  available : Bool
  status : String
  deriving DecidableEq

/-- `RestaurantKnowledge`. -/
structure Knowledge where
  restaurantId : String
  restaurant : Chunk RestaurantFacts
  items : List (Chunk ItemFacts)
  deriving DecidableEq

/-- `{restaurant_id}:{suffix}`. -/
def chunkId (restaurantId suffix : String) : String := restaurantId ++ ":" ++ suffix

/-- `SELF_SUFFIX`. -/
def selfSuffix : String := "_self"

/-- `is_indexable`: not a brand, and in a city. -/
def isIndexable (payload : Payload) : Bool :=
  payload.kind ≠ some "brand" && ! (clean payload.city).isEmpty

section

variable (lower digest : String → String)

/-- The columns that the dishes share with their restaurant. -/
def restaurantFacts (payload : Payload) : RestaurantFacts where
  city := clean payload.city
  brandId := payload.brandId
  cuisines := slugs lower payload.cuisines
  status := if (clean payload.status).isEmpty then "open" else clean payload.status

def restaurantChunk (restaurantId : String) (payload : Payload) : Chunk RestaurantFacts :=
  let facts := restaurantFacts lower payload
  let text := restaurantText (clean payload.name) (clean payload.branchLabel) facts.cuisines
  ⟨chunkId restaurantId selfSuffix, restaurantId, text, digest text, facts⟩

/-- The chunk of a dish; a dish without an identifier has none. -/
def itemChunk (restaurantId : String) (facts : RestaurantFacts) (category : String)
    (item : MenuItem) : Option (Chunk ItemFacts) :=
  match item.id with
  | none => none
  | some itemId =>
    if itemId.isEmpty then none
    else
      let tags := slugs lower item.tags
      let name := clean item.name
      let text := itemText name (clean item.description) category tags facts.cuisines
      some ⟨chunkId restaurantId itemId, restaurantId, text, digest text,
        { itemId, city := facts.city, brandId := facts.brandId, cuisines := facts.cuisines,
          category, tags, name, priceCents := item.priceCents.getD 0, available := item.available,
          status := facts.status }⟩

def itemChunks (restaurantId : String) (payload : Payload) : List (Chunk ItemFacts) :=
  payload.categories.flatMap fun category => category.items.filterMap
    (itemChunk lower digest restaurantId (restaurantFacts lower payload) (clean category.name))

def chunk (restaurantId : String) (payload : Payload) : Option Knowledge :=
  if isIndexable payload then
    some ⟨restaurantId, restaurantChunk lower digest restaurantId payload,
      itemChunks lower digest restaurantId payload⟩
  else none

variable {lower digest} {restaurantId : String} {payload : Payload} {k : Knowledge}

theorem chunk_eq_some : chunk lower digest restaurantId payload = some k ↔
    isIndexable payload = true ∧ k = ⟨restaurantId, restaurantChunk lower digest restaurantId payload,
      itemChunks lower digest restaurantId payload⟩ := by
  unfold chunk
  split
  · next h => exact ⟨fun hk => ⟨h, (Option.some.inj hk).symm⟩, fun hk => congrArg some hk.2.symm⟩
  · next h =>
    constructor
    · intro hk
      cases hk
    · exact fun hk => absurd hk.1 h

theorem exists_chunk (h : isIndexable payload = true) :
    ∃ k, chunk lower digest restaurantId payload = some k := ⟨_, if_pos h⟩

/-- A dish's chunk is the restaurant's, under the dish's identifier, and its digest is that of its
text. -/
theorem of_mem_itemChunks {c : Chunk ItemFacts}
    (h : c ∈ itemChunks lower digest restaurantId payload) :
    c.id = chunkId restaurantId c.facts.itemId ∧ c.restaurantId = restaurantId ∧
      c.contentHash = digest c.content := by
  obtain ⟨category, -, hc⟩ := List.mem_flatMap.mp h
  obtain ⟨item, -, hitem⟩ := List.mem_filterMap.mp hc
  unfold itemChunk at hitem
  split at hitem
  · cases hitem
  · split at hitem
    · cases hitem
    · cases hitem
      exact ⟨rfl, rfl, rfl⟩

theorem restaurantText_restaurantChunk (hlower : ∀ s, OneLine s → OneLine (lower s)) :
    RestaurantText (restaurantChunk lower digest restaurantId payload).content :=
  ⟨_, _, _, oneLine_clean _, oneLine_clean _, fun _ hs => oneLine_slugs hlower hs, rfl⟩

theorem itemText_of_mem_itemChunks {c : Chunk ItemFacts}
    (h : c ∈ itemChunks lower digest restaurantId payload) : ItemText c.content := by
  obtain ⟨category, -, hc⟩ := List.mem_flatMap.mp h
  obtain ⟨item, -, hitem⟩ := List.mem_filterMap.mp hc
  unfold itemChunk at hitem
  split at hitem
  · cases hitem
  · split at hitem
    · cases hitem
    · cases hitem
      exact ⟨_, _, _, _, _, oneLine_clean _, rfl⟩

end

/-! ### Identifiers -/

/-- The identifiers of one restaurant's chunks are no other's. -/
theorem chunkId_inj {r r' s s' : String} (hr : ':' ∉ r.toList) (hr' : ':' ∉ r'.toList)
    (h : chunkId r s = chunkId r' s') : r = r' ∧ s = s' := by
  have hlist : r.toList ++ ':' :: s.toList = r'.toList ++ ':' :: s'.toList := by
    have := congrArg String.toList h
    simpa [chunkId] using this
  obtain ⟨hfst, hsnd⟩ := Separated.eq_of_append_cons_eq hr hr' hlist
  exact ⟨String.toList_inj.mp hfst, String.toList_inj.mp hsnd⟩

/-- What the digests and the identifiers of a payload rest on: the restaurant's identifier ends at
the colon, an identifier that is listed twice is listed with one chunk, and different texts have
different digests. -/
structure Payload.Clear (lower digest : String → String) (restaurantId : String) (p : Payload) :
    Prop where
  colon : ':' ∉ restaurantId.toList
  items : ∀ c ∈ itemChunks lower digest restaurantId p,
    ∀ c' ∈ itemChunks lower digest restaurantId p, c.id = c'.id → c = c'
  texts : ∀ t ∈ (restaurantChunk lower digest restaurantId p).content ::
      (itemChunks lower digest restaurantId p).map Chunk.content,
    ∀ t' ∈ (restaurantChunk lower digest restaurantId p).content ::
      (itemChunks lower digest restaurantId p).map Chunk.content, digest t = digest t' → t = t'

instance (lower digest : String → String) (restaurantId : String) (p : Payload) :
    Decidable (p.Clear lower digest restaurantId) :=
  decidable_of_iff (_ ∧ _ ∧ _)
    ⟨fun h => ⟨h.1, h.2.1, h.2.2⟩, fun h => ⟨h.colon, h.items, h.texts⟩⟩

end Assistant
