/-
What a kitchen changes from day to day is not in its texts.

* `Reflowed`, `Recased` — texts but for their white space, tags but for their order and case;
* `Churned` — payloads of one restaurant that say the same dishes, whatever the prices, the
  availability and the status;
* `Payload.Drops` — a payload with some of the dishes left out;
* `texts_eq` — churn changes no chunk's identifier and no chunk's text;
* `clean_lower` — what is asked of lower case holds of a change of one letter at a time.
-/
import SmartFoodOps.Assistant.Knowledge
import Mathlib.Data.List.Forall2

namespace Assistant

/-! ### Payloads that say the same -/

/-- The words of a text, as white space parts them. -/
def wordsOf (text : Option String) : List (List Char) :=
  ((text.getD "").toList.splitOnP isSpace).filter fun w => ! w.isEmpty

/-- The white space between the words differs, and that around them. -/
def Reflowed (a b : Option String) : Prop := wordsOf a = wordsOf b

/-- The order differs, and the case of the letters. -/
def Recased (lower : String → String) (a b : List String) : Prop :=
  (a.map lower).Perm (b.map lower)

section

variable (lower : String → String)

/-- The price and the availability are free. -/
structure SameDish (a b : MenuItem) : Prop where
  id : a.id = b.id
  name : Reflowed a.name b.name
  description : Reflowed a.description b.description
  tags : Recased lower a.tags b.tags

structure SameCategory (a b : MenuCategory) : Prop where
  name : Reflowed a.name b.name
  items : List.Forall₂ (SameDish lower) a.items b.items

/-- The status is free. -/
structure Churned (p q : Payload) : Prop where
  kind : p.kind = q.kind
  city : p.city = q.city
  brandId : p.brandId = q.brandId
  cuisines : Recased lower p.cuisines q.cuisines
  name : Reflowed p.name q.name
  branchLabel : Reflowed p.branchLabel q.branchLabel
  categories : List.Forall₂ (SameCategory lower) p.categories q.categories

instance (a b : Option String) : Decidable (Reflowed a b) := inferInstanceAs (Decidable (_ = _))

instance (a b : List String) : Decidable (Recased lower a b) :=
  inferInstanceAs (Decidable (List.Perm _ _))

instance (a b : MenuItem) : Decidable (SameDish lower a b) :=
  decidable_of_iff (_ ∧ _ ∧ _ ∧ _)
    ⟨fun h => ⟨h.1, h.2.1, h.2.2.1, h.2.2.2⟩, fun h => ⟨h.id, h.name, h.description, h.tags⟩⟩

end

/-- Of the categories and of the dishes some are left out. -/
structure Payload.Drops (q p : Payload) : Prop where
  rest : p = { q with categories := p.categories }
  categories : List.SublistForall₂
    (fun a b : MenuCategory => a.name = b.name ∧ a.items.Sublist b.items) p.categories q.categories

/-- The identifier of a dish that has a chunk. -/
def MenuItem.listedId (item : MenuItem) : Option String := item.id.filter fun itemId => itemId ≠ ""

def Payload.itemIds (p : Payload) : List String :=
  p.categories.flatMap fun category => category.items.filterMap MenuItem.listedId

/-- The identifiers are those that the catalog mints: a restaurant's has no colon, and no two dishes
of a menu have the same one, or the restaurant's suffix. -/
structure Catalogued (restaurantId : String) (p : Payload) : Prop where
  colon : ':' ∉ restaurantId.toList
  distinct : p.itemIds.Nodup
  minted : selfSuffix ∉ p.itemIds

instance (restaurantId : String) (p : Payload) : Decidable (Catalogued restaurantId p) :=
  decidable_of_iff (_ ∧ _ ∧ _)
    ⟨fun h => ⟨h.1, h.2.1, h.2.2⟩, fun h => ⟨h.colon, h.distinct, h.minted⟩⟩

/-! ### Texts -/

theorem clean_eq {a b : Option String} (h : Reflowed a b) : clean a = clean b := by
  show " ".intercalate ((wordsOf a).map String.ofList) = " ".intercalate ((wordsOf b).map _)
  rw [h]

section

variable {lower digest : String → String}
  (hlower : ∀ s, lower (clean (some s)) = clean (some (lower s)))

include hlower in
/-- **Slugs** do not tell the order of the values, or the case of their letters. -/
theorem slugs_eq {a b : List String} (h : Recased lower a b) : slugs lower a = slugs lower b := by
  have hlowered : ∀ l : List String, (l.map fun v => lower (clean (some v))) =
      (l.map lower).map fun v => clean (some v) := by
    intro l
    rw [List.map_map]
    exact List.map_congr_left fun v _ => hlower v
  have hperm := ((h.map fun v => clean (some v)).dedup).filter fun slug => ! slug.isEmpty
  unfold slugs
  rw [hlowered a, hlowered b]
  refine List.Perm.eq_of_pairwise (fun x y _ _ hxy hyx => le_antisymm hxy hyx)
    (List.pairwise_insertionSort _ _) (List.pairwise_insertionSort _ _) ?_
  exact (List.perm_insertionSort _ _).trans (hperm.trans (List.perm_insertionSort _ _).symm)

/-- The identifier and the text of a dish's chunk. -/
def itemEntry (lower : String → String) (restaurantId : String) (cuisines : List String)
    (category : String) (item : MenuItem) : Option (String × String) :=
  item.listedId.map fun itemId =>
    (chunkId restaurantId itemId, itemText (clean item.name) (clean item.description) category
      (slugs lower item.tags) cuisines)

/-- The identifiers and the texts of the chunks. -/
def Knowledge.texts (k : Knowledge) : List (String × String) :=
  (k.restaurant.id, k.restaurant.content) :: k.items.map fun c => (c.id, c.content)

variable {r : String} {p q : Payload} {k : Knowledge}

theorem listedId_of_id {item : MenuItem} {itemId : String} (hid : item.id = some itemId) :
    item.listedId = if itemId.isEmpty then none else some itemId := by
  unfold MenuItem.listedId
  rw [hid, Option.filter_some]
  by_cases hempty : itemId = ""
  · simp [hempty]
  · simp [hempty]

/-- A chunk is that of the dish, with the dish's price and availability. -/
theorem of_itemChunk {facts : RestaurantFacts} {category : String} {item : MenuItem}
    {c : Chunk ItemFacts} (h : itemChunk lower digest r facts category item = some c) :
    item.listedId = some c.facts.itemId ∧
      (c.id, c.content) = (chunkId r c.facts.itemId, itemText (clean item.name)
        (clean item.description) category (slugs lower item.tags) facts.cuisines) ∧
      c.facts.priceCents = item.priceCents.getD 0 ∧ c.facts.available = item.available ∧
      c.facts.status = facts.status := by
  unfold itemChunk at h
  split at h
  · cases h
  · next itemId hid =>
    split at h
    · cases h
    · next hne =>
      cases h
      exact ⟨by rw [listedId_of_id hid, if_neg hne], rfl, rfl, rfl, rfl⟩

theorem exists_itemChunk {facts : RestaurantFacts} {category : String} {item : MenuItem}
    {itemId : String} (h : item.listedId = some itemId) :
    ∃ c, itemChunk lower digest r facts category item = some c ∧ c.facts.itemId = itemId := by
  have hid : item.id = some itemId := Option.eq_some_of_filter_eq_some h
  have hne : ¬ itemId.isEmpty = true := by
    intro hempty
    rw [listedId_of_id hid, if_pos hempty] at h
    cases h
  unfold itemChunk
  simp only [hid, if_neg hne]
  exact ⟨_, rfl, rfl⟩

theorem map_itemChunk {α : Type} {f : Chunk ItemFacts → α} {g : String → α} {facts : RestaurantFacts}
    {category : String} {item : MenuItem}
    (hfg : ∀ c, itemChunk lower digest r facts category item = some c → f c = g c.facts.itemId) :
    (itemChunk lower digest r facts category item).map f = item.listedId.map g := by
  cases hlisted : item.listedId with
  | some itemId =>
    obtain ⟨c, hc, rfl⟩ := @exists_itemChunk lower digest r facts category item itemId hlisted
    rw [hc, Option.map_some, Option.map_some, hfg c hc]
  | none =>
    cases hchunk : itemChunk lower digest r facts category item with
    | none => rfl
    | some c =>
      rw [(of_itemChunk hchunk).1] at hlisted
      cases hlisted

theorem map_itemChunks : (itemChunks lower digest r p).map (fun c => (c.id, c.content)) =
    p.categories.flatMap fun category => category.items.filterMap
      (itemEntry lower r (slugs lower p.cuisines) (clean category.name)) := by
  unfold itemChunks
  rw [List.map_flatMap]
  refine List.flatMap_congr fun category _ => ?_
  rw [List.map_filterMap]
  exact List.filterMap_congr fun item _ => map_itemChunk fun c hc => (of_itemChunk hc).2.1

/-- A dish with an identifier has a chunk, and a chunk is a dish's. -/
theorem itemId_itemChunks :
    (itemChunks lower digest r p).map (fun c => c.facts.itemId) = p.itemIds := by
  unfold itemChunks Payload.itemIds
  rw [List.map_flatMap]
  refine List.flatMap_congr fun category _ => ?_
  rw [List.map_filterMap]
  refine List.filterMap_congr fun item _ => ?_
  exact (map_itemChunk fun c _ => rfl).trans Option.map_id'

theorem id_itemChunks :
    (itemChunks lower digest r p).map Chunk.id = p.itemIds.map (chunkId r) := by
  rw [← @itemId_itemChunks lower digest r p, List.map_map]
  exact List.map_congr_left fun c hc => (of_mem_itemChunks hc).1

/-- Lists whose elements have the same images are mapped to the same list. -/
theorem map_eq_of_forall₂ {α β γ : Type} {R : α → β → Prop} {f : α → γ} {g : β → γ} {as : List α}
    {bs : List β} (h : List.Forall₂ R as bs) (hfg : ∀ a b, R a b → f a = g b) :
    as.map f = bs.map g := by
  induction h with
  | nil => rfl
  | cons hab _ ih => rw [List.map_cons, List.map_cons, hfg _ _ hab, ih]

include hlower in
theorem itemEntries_eq (h : Churned lower p q) :
    (itemChunks lower digest r p).map (fun c => (c.id, c.content)) =
      (itemChunks lower digest r q).map fun c => (c.id, c.content) := by
  rw [map_itemChunks, map_itemChunks, slugs_eq hlower h.cuisines, List.flatMap_def, List.flatMap_def]
  refine congrArg List.flatten (map_eq_of_forall₂ h.categories fun a b hab => ?_)
  rw [clean_eq hab.name]
  have hitems : (a.items.map (itemEntry lower r (slugs lower q.cuisines) (clean b.name))) =
      b.items.map (itemEntry lower r (slugs lower q.cuisines) (clean b.name)) := by
    refine map_eq_of_forall₂ hab.items fun i j hij => ?_
    unfold itemEntry MenuItem.listedId
    rw [hij.id, clean_eq hij.name, clean_eq hij.description, slugs_eq hlower hij.tags]
  have hmerged := congrArg (List.filterMap id) hitems
  rwa [List.filterMap_map, List.filterMap_map] at hmerged

theorem isIndexable_eq (h : Churned lower p q) : isIndexable p = isIndexable q := by
  unfold isIndexable
  rw [h.kind, h.city]

include hlower in
/-- **Churn changes no text.** -/
theorem texts_eq (h : Churned lower p q) : (chunk lower digest r p).map Knowledge.texts =
    (chunk lower digest r q).map Knowledge.texts := by
  have hself : (restaurantChunk lower digest r p).content =
      (restaurantChunk lower digest r q).content := by
    show restaurantText (clean p.name) (clean p.branchLabel) (slugs lower p.cuisines) = _
    rw [clean_eq h.name, clean_eq h.branchLabel, slugs_eq hlower h.cuisines]
    rfl
  have hitems := @itemEntries_eq lower digest hlower r p q h
  unfold chunk
  rw [isIndexable_eq h]
  cases isIndexable q with
  | false => rfl
  | true => exact congrArg some (congrArg₂ (fun s l => (chunkId r selfSuffix, s) :: l) hself hitems)

theorem itemIds_eq (h : Churned lower p q) : p.itemIds = q.itemIds := by
  unfold Payload.itemIds
  rw [List.flatMap_def, List.flatMap_def]
  refine congrArg List.flatten (map_eq_of_forall₂ h.categories fun a b hab => ?_)
  have hitems : a.items.map MenuItem.listedId = b.items.map MenuItem.listedId :=
    map_eq_of_forall₂ hab.items fun i j hij => congrArg (Option.filter _) hij.id
  have hmerged := congrArg (List.filterMap id) hitems
  rwa [List.filterMap_map, List.filterMap_map] at hmerged

/-! ### Dishes that are left out -/

/-- A payload with fewer dishes has fewer chunks, and those it had. -/
theorem itemChunks_sublist (h : q.Drops p) :
    (itemChunks lower digest r p).Sublist (itemChunks lower digest r q) := by
  have hfacts : restaurantFacts lower p = restaurantFacts lower q := by rw [h.rest]; rfl
  have hcategories := h.categories
  unfold itemChunks
  rw [hfacts]
  generalize p.categories = cs, q.categories = ds at hcategories
  induction hcategories with
  | nil => exact List.nil_sublist _
  | cons hab _ ih =>
    rw [List.flatMap_cons, List.flatMap_cons, hab.1]
    exact (hab.2.filterMap _).append ih
  | cons_right _ ih =>
    rw [List.flatMap_cons]
    exact ih.trans (List.sublist_append_right _ _)

theorem itemIds_sublist (h : q.Drops p) : p.itemIds.Sublist q.itemIds := by
  have hchunks := (@itemChunks_sublist id id "" p q h).map fun c => c.facts.itemId
  rwa [itemId_itemChunks, itemId_itemChunks] at hchunks

theorem texts_sublist {k k' : Knowledge} (h : q.Drops p) (hk : chunk lower digest r q = some k)
    (hk' : chunk lower digest r p = some k') : k'.texts.Sublist k.texts := by
  obtain ⟨-, rfl⟩ := chunk_eq_some.mp hk
  obtain ⟨-, rfl⟩ := chunk_eq_some.mp hk'
  have hself : (restaurantChunk lower digest r p).content =
      (restaurantChunk lower digest r q).content := by rw [h.rest]; rfl
  unfold Knowledge.texts
  rw [hself]
  exact ((itemChunks_sublist h).map _).cons_cons _

end

/-! ### Lower case -/

/-- A change of one letter at a time. -/
def eachLetter (f : Char → Char) (s : String) : String := String.ofList (s.toList.map f)

section

variable {f : Char → Char} (hspace : ∀ c, isSpace (f c) = isSpace c) (hblank : f ' ' = ' ')

include hspace in
theorem splitOnP_map (s : List Char) :
    (s.map f).splitOnP isSpace = (s.splitOnP isSpace).map (List.map f) := by
  induction s with
  | nil => rfl
  | cons c cs ih =>
    rw [List.map_cons, List.splitOnP_cons_eq_if_modifyHead, List.splitOnP_cons_eq_if_modifyHead,
      hspace, ih]
    split
    · rfl
    · cases cs.splitOnP isSpace <;> rfl

include hspace in
theorem wordsOf_eachLetter (s : String) :
    wordsOf (some (eachLetter f s)) = (wordsOf (some s)).map (List.map f) := by
  show ((eachLetter f s).toList.splitOnP isSpace).filter _ = _
  unfold eachLetter
  rw [String.toList_ofList, splitOnP_map hspace, List.filter_map]
  refine congrArg _ (List.filter_congr fun w _ => ?_)
  cases w <;> rfl

include hspace hblank in
/-- Where white space is kept, lower case and `clean` commute. -/
theorem clean_lower (s : String) :
    eachLetter f (clean (some s)) = clean (some (eachLetter f s)) := by
  have htext : ∀ ws : List (List Char), (" ".intercalate (ws.map String.ofList)).toList =
      [' '].intercalate ws := by
    intro ws
    rw [String.toList_intercalate, List.map_map]
    exact congrArg _ (List.map_id'' (fun w => String.toList_ofList) ws)
  have hjoin : ∀ ws : List (List Char), ([' '].intercalate ws).map f =
      [' '].intercalate (ws.map (List.map f)) := by
    intro ws
    induction ws with
    | nil => rfl
    | cons w ws ih =>
      cases ws with
      | nil => rw [List.map_singleton, List.intercalate_singleton, List.intercalate_singleton]
      | cons w' ws =>
        rw [List.intercalate_cons_cons, List.map_append, List.map_append, ih]
        simp only [List.map_cons, List.map_nil, hblank]
        rw [List.intercalate_cons_cons]
  apply String.toList_inj.mp
  show (String.ofList ((" ".intercalate ((wordsOf (some s)).map _)).toList.map f)).toList =
    (" ".intercalate ((wordsOf (some (eachLetter f s))).map _)).toList
  rw [htext, wordsOf_eachLetter hspace, String.toList_ofList, htext, hjoin]

/-- A capital is no white space, and neither is its small letter. -/
theorem isSpace_toLower (c : Char) : isSpace c.toLower = isSpace c := by
  unfold Char.toLower
  split
  · next h =>
    obtain ⟨hlow, hhigh⟩ := h
    have hc : 65 ≤ c.toNat ∧ c.toNat ≤ 90 :=
      ⟨UInt32.le_iff_toNat_le.mp hlow, UInt32.le_iff_toNat_le.mp hhigh⟩
    have hadd : (c.val + ('a'.val - 'A'.val)).toNat = c.toNat + 32 := by
      rw [UInt32.toNat_add, show ('a'.val - 'A'.val).toNat = 32 from rfl]
      exact Nat.mod_eq_of_lt (by show c.toNat + 32 < 2 ^ 32; omega)
    apply Bool.eq_iff_iff.mpr
    unfold isSpace
    rw [Char.toNat, hadd]
    simp only [Bool.or_eq_true, Bool.and_eq_true, decide_eq_true_eq]
    omega
  · rfl

end

end Assistant
