/-
The queue of restaurants to index, and the drains that empty it.

* `stage`, `Due`, `complete` — the queue;
* `stale`, `vectors` — which texts are embedded, and their vectors;
* `World`, `Event`, `step` — the handler and any number of drains, a session a step; a drain that
  fails or stops forgets what it had read;
* `Intact` — the condition on a step: a write finds what its drain had read.
-/
import SmartFoodOps.Assistant.VectorStore
import SmartFoodOps.Lib.Machine
import Mathlib.Logic.Function.Basic

open Machine Keyed

namespace Assistant

/-! ### The queue -/

/-- A row of `knowledge_pending`. -/
structure PendingRow where
  restaurantId : String
  payload : Payload
  dueAt : ℕ
  firstSeenAt : ℕ
  deriving DecidableEq

abbrev Queue := Table PendingRow String PendingRow.restaurantId

/-- `stage`: the newest payload, and the earlier of the two deadlines. -/
def stage (queue : Queue) (restaurantId : String) (payload : Payload) (now debounce : ℕ) : Queue :=
  let dueAt := now + debounce
  queue.insertOr ⟨restaurantId, payload, dueAt, now⟩ fun old =>
    { old with payload, dueAt := if old.dueAt < dueAt then old.dueAt else dueAt }

/-- `due`: `rows` are an answer of the query for at most `limit` rows, the oldest deadlines
first. -/
def Due (queue : Queue) (now limit : ℕ) (rows : List PendingRow) : Prop :=
  (∀ row ∈ rows, row ∈ queue.rows ∧ row.dueAt ≤ now) ∧ rows.Nodup ∧
    rows.Pairwise (fun row row' => row.dueAt ≤ row'.dueAt) ∧
    rows.length = min limit (queue.rows.countP fun row => row.dueAt ≤ now) ∧
    ∀ row' ∈ queue.rows, row'.dueAt ≤ now → row' ∉ rows → ∀ row ∈ rows, row.dueAt ≤ row'.dueAt

instance (queue : Queue) (now limit : ℕ) (rows : List PendingRow) :
    Decidable (Due queue now limit rows) := inferInstanceAs (Decidable (_ ∧ _))

/-- `complete`: the row goes if it still holds the payload. -/
def complete (queue : Queue) (restaurantId : String) (payload : Payload) : Queue :=
  queue.deleteWhere fun row => row.restaurantId = restaurantId && row.payload = payload

/-! ### A pass -/

/-- How a text is lowered, digested and embedded. -/
structure Recipe (V : Type) where
  lower : String → String
  digest : String → String
  embed : String → V

variable {D V : Type} [DecidableEq D]

def Recipe.chunk (x : Recipe V) (restaurantId : String) (payload : Payload) : Option Knowledge :=
  Assistant.chunk x.lower x.digest restaurantId payload

/-- `_stale`: of every digest the first text that is not the one stored under its identifier. -/
def stale (k : Knowledge) (stored : List (String × String)) : Dict String String :=
  let texts := (k.restaurant.id, k.restaurant.contentHash, k.restaurant.content) ::
    k.items.map fun c => (c.id, c.contentHash, c.content)
  Dict.gather (fun t => t.2.1) (fun t old => old.getD t.2.2)
    (texts.filter fun t => stored.lookup t.1 ≠ some t.2.2)

def Recipe.vectors (x : Recipe V) (k : Knowledge) (stored : List (String × String)) :
    Dict String V :=
  (stale k stored).mapValues x.embed

/-- A chunk without a vector has its text stored. -/
theorem lookup_of_get_vectors {x : Recipe V} {k : Knowledge} {stored : List (String × String)} {hash : String} {id s : String}
    (h : (x.vectors k stored).get hash = none)
    (hmem : (id, hash, s) ∈ (k.restaurant.id, k.restaurant.contentHash, k.restaurant.content) ::
      k.items.map fun c => (c.id, c.contentHash, c.content)) : stored.lookup id = some s := by
  unfold Recipe.vectors stale at h
  rw [Dict.get_mapValues, Dict.get_gather_getD, Option.map_map, Option.map_eq_none_iff,
    List.find?_eq_none] at h
  by_contra hne
  exact h _ (List.mem_filter.mpr ⟨hmem, decide_eq_true hne⟩) (decide_eq_true rfl)

/-- Where a drain is with the row at its head. -/
inductive Phase (V : Type)
  | reading
  | embedding (stored : List (String × String))
  | writing (vectors : Dict String V)

def Phase.vectors : Phase V → Option (Dict String V)
  | .writing vectors => some vectors
  | _ => none

/-- The rows that a drain has read and not drained, and where it is with the first. -/
structure Pass (V : Type) where
  rows : List PendingRow
  phase : Phase V

structure World (D V : Type) where
  queue : Queue
  index : Index V
  passes : D → Pass V
  /-- Every payload that was queued, the newest first. -/
  queued : List (String × Payload)

def World.init : World D V := ⟨.empty, ⟨.empty, .empty⟩, fun _ => ⟨[], .reading⟩, []⟩

def World.latest (w : World D V) (restaurantId : String) : Option Payload :=
  (w.queued.find? fun q => q.1 = restaurantId).map Prod.snd

/-- What the latest payload says of a restaurant. -/
def World.known (x : Recipe V) (w : World D V) (restaurantId : String) : Option Knowledge :=
  (w.latest restaurantId).bind (x.chunk restaurantId)

def World.setPass (w : World D V) (d : D) (p : Pass V) : World D V :=
  { w with passes := Function.update w.passes d p }

inductive Event (D : Type)
  /-- A change of a restaurant reaches the handler. -/
  | handle (restaurantId : String) (payload : Payload) (now debounce : ℕ)
  /-- A drain begins a pass. -/
  | due (d : D) (now limit : ℕ) (rows : List PendingRow)
  /-- It completes a row with nothing to index. -/
  | discard (d : D)
  | readTexts (d : D)
  | embed (d : D)
  | write (d : D)
  /-- It fails, or is stopped. -/
  | fail (d : D)

/-- What is known of a restaurant, with the vectors there are. -/
def Index.replace (index : Index V) (restaurantId : String) (k : Knowledge)
    (vectors : Dict String V) : Index V :=
  index.replaceRestaurant restaurantId (k.restaurant, vectors.get k.restaurant.contentHash)
    (k.items.map fun c => (c, vectors.get c.contentHash))

/-- `replace_restaurant` and `complete`, in one transaction. -/
def World.write (w : World D V) (row : PendingRow) (k : Knowledge) (vectors : Dict String V) :
    World D V :=
  { w with
    index := w.index.replace row.restaurantId k vectors
    queue := complete w.queue row.restaurantId row.payload }

def step (x : Recipe V) (w : World D V) : Event D → Option (World D V)
  | .handle restaurantId payload now debounce =>
    if isIndexable payload then
      some { w with
        queue := stage w.queue restaurantId payload now debounce
        queued := (restaurantId, payload) :: w.queued }
    else some w
  | .due d now limit rows =>
    if (w.passes d).rows = [] ∧ Due w.queue now limit rows then
      some (w.setPass d ⟨rows, .reading⟩)
    else none
  | .discard d =>
    match w.passes d with
    | ⟨row :: rest, .reading⟩ =>
      match x.chunk row.restaurantId row.payload with
      | none =>
        some { w.setPass d ⟨rest, .reading⟩ with
          queue := complete w.queue row.restaurantId row.payload }
      | some _ => none
    | _ => none
  | .readTexts d =>
    match w.passes d with
    | ⟨row :: rest, .reading⟩ =>
      (x.chunk row.restaurantId row.payload).map fun _ =>
        w.setPass d ⟨row :: rest, .embedding (w.index.contentsFor row.restaurantId)⟩
    | _ => none
  | .embed d =>
    match w.passes d with
    | ⟨row :: rest, .embedding stored⟩ =>
      (x.chunk row.restaurantId row.payload).map fun k =>
        w.setPass d ⟨row :: rest, .writing (x.vectors k stored)⟩
    | _ => none
  | .write d =>
    match w.passes d with
    | ⟨row :: rest, .writing vectors⟩ =>
      (x.chunk row.restaurantId row.payload).map fun k =>
        (w.write row k vectors).setPass d ⟨rest, .reading⟩
    | _ => none
  | .fail d => some (w.setPass d ⟨[], .reading⟩)

/-! ### The condition -/

/-- A chunk that is written without a vector has a row with its text. -/
def Stands {φ : Type} (t : ChunkTable φ V) (vectors : Dict String V) (c : Chunk φ) : Prop :=
  vectors.get c.contentHash = none → ∃ row ∈ t.rows, row.id = c.id ∧ row.content = c.content

instance {φ : Type} (t : ChunkTable φ V) (vectors : Dict String V) (c : Chunk φ) :
    Decidable (Stands t vectors c) := inferInstanceAs (Decidable (_ → _))

/-- Nothing has come between a drain's reads and its write: the texts that it did not embed stand,
and if the restaurant is no longer queued then it writes what was queued last. -/
def Uncrossed (x : Recipe V) (w : World D V) (row : PendingRow) (vectors : Dict String V) : Prop :=
  ∀ k ∈ x.chunk row.restaurantId row.payload,
    Stands w.index.restaurants vectors k.restaurant ∧
    (∀ c ∈ k.items, Stands w.index.items vectors c) ∧
    (w.queue.find row.restaurantId = none → w.known x row.restaurantId = some k)

instance (x : Recipe V) (w : World D V) (row : PendingRow) (vectors : Dict String V) :
    Decidable (Uncrossed x w row vectors) := inferInstanceAs (Decidable (∀ k ∈ x.chunk _ _, _))

def Intact (x : Recipe V) (w : World D V) : Event D → Prop
  | .handle restaurantId payload _ _ =>
    isIndexable payload = true → payload.Clear x.lower x.digest restaurantId
  | .write d => ∀ row ∈ (w.passes d).rows.head?, ∀ vectors ∈ (w.passes d).phase.vectors,
    Uncrossed x w row vectors
  | _ => True

instance (x : Recipe V) (w : World D V) : (e : Event D) → Decidable (Intact x w e)
  | .handle _ _ _ _ => inferInstanceAs (Decidable (_ → _))
  | .write d => inferInstanceAs (Decidable (∀ row ∈ (w.passes d).rows.head?, _))
  | .due _ _ _ _ | .discard _ | .readTexts _ | .embed _ | .fail _ =>
    inferInstanceAs (Decidable True)

end Assistant
