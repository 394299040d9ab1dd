/-
Catalog mutations, interleaved statement by statement, and the menu cache.

A transaction sees the committed rows with its own writes applied; a write waits for a
row that another transaction has written.  A transaction can be aborted anywhere before
its commit.  What a mutation has read since it began to publish is kept beside it, for
the conditions on runs.

* `Call`, `Call.body` — the mutations;
* `Tx` — a mutation in progress: it edits, publishes, commits and invalidates;
* `step` — one statement of one mutation, or one complete `get_menu`;
* `Step`, `step_cases` — what a step can do.
-/
import SmartFoodOps.Lib.Machine
import SmartFoodOps.Catalog.Service

open Machine Program

namespace Catalog

inductive Call
  | createRestaurant (ownerUserId name : String) (place : Place) (cuisines : List String)
      (timezone branchLabel : Option String)
  | updateRestaurant (id : RestaurantId) (changes : RestaurantChanges)
      (cuisines : Option (List String))
  | createBranch (brandId : RestaurantId) (branchLabel : String) (place : Place)
      (timezone : Option String)
  | setBaseItemAvailability (branchId : RestaurantId) (itemId : ItemId) (available : Bool)
  | setStatus (id : RestaurantId) (status : RestaurantStatus)
  | addCategory (restaurantId : RestaurantId) (name : String) (rank : ℤ)
  | updateCategory (restaurantId : RestaurantId) (categoryId : CategoryId)
      (changes : CategoryChanges)
  | deleteCategory (restaurantId : RestaurantId) (categoryId : CategoryId)
  | addItem (restaurantId : RestaurantId) (categoryId : CategoryId) (fields : ItemFields)
      (tags : List String) (modifierGroups : List ModifierGroupIn)
  | updateItem (restaurantId : RestaurantId) (itemId : ItemId) (changes : ItemChanges)
      (tags : Option (List String)) (modifierGroups : Option (List ModifierGroupIn))
  | deleteItem (restaurantId : RestaurantId) (itemId : ItemId)
  deriving DecidableEq

/-- What a mutation does before it publishes. -/
def Call.body (defaultTimezone : String) : Call → Session (Option Target)
  | createRestaurant owner name place cuisines timezone label =>
    Catalog.createRestaurant defaultTimezone owner name place cuisines timezone label
  | updateRestaurant id c cuisines => Catalog.updateRestaurant id c cuisines
  | createBranch brand label place timezone =>
    Catalog.createBranch defaultTimezone brand label place timezone
  | setBaseItemAvailability branch item available =>
    Catalog.setBaseItemAvailability branch item available
  | setStatus id status => Catalog.setStatus id status
  | addCategory id name rank => Catalog.addCategory id name rank
  | updateCategory id category c => Catalog.updateCategory id category c
  | deleteCategory id category => Catalog.deleteCategory id category
  | addItem id category fields tags groups => Catalog.addItem id category fields tags groups
  | updateItem id item c tags groups => Catalog.updateItem id item c tags groups
  | deleteItem id item => Catalog.deleteItem id item

/-- A mutation in progress. -/
inductive Tx : Type 1
  | idle
  /-- It runs its body; the writes so far. -/
  | editing (p : Session (Option Target)) (edits : List Write)
  /-- It stages its events; `facts` are the answers that it got since it began to. -/
  | publishing (target : Target) (edits : List Write) (p : Session (List RestaurantId))
      (staged : List Write) (facts : List (Db → Bool))
  /-- It has committed and deletes cache keys. -/
  | invalidating (todo : List RestaurantId)

def Tx.writes : Tx → List Write
  | editing _ edits => edits
  | publishing _ edits _ staged _ => edits ++ staged
  | _ => []

def Tx.Idle : Tx → Prop
  | idle => True
  | _ => False

instance (tx : Tx) : Decidable tx.Idle := by
  unfold Tx.Idle
  split <;> infer_instance

structure System (n : ℕ) : Type 1 where
  db : Db
  txs : Fin n → Tx
  cache : RestaurantId → Option MenuDoc

inductive Event (n : ℕ)
  | start (pid : Fin n) (call : Call)
  /-- The next statement; `drawn` is the value that it draws, if it draws one. -/
  | run (pid : Fin n) (drawn : ℕ)
  | abort (pid : Fin n)
  | getMenu (id : RestaurantId)
  deriving DecidableEq

variable {n : ℕ}

namespace System

def empty : System n := ⟨.empty, fun _ => .idle, fun _ => none⟩

/-- No mutation is in progress. -/
def Idle (s : System n) : Prop := ∀ pid, (s.txs pid).Idle

instance (s : System n) : Decidable s.Idle := inferInstanceAs (Decidable (∀ _, Tx.Idle _))

def set (s : System n) (pid : Fin n) (tx : Tx) : System n :=
  { s with txs := Function.update s.txs pid tx }

/-- Nobody else has written the rows of these writes. -/
def Free (s : System n) (pid : Fin n) (ws : List Write) : Prop :=
  ∀ q, q ≠ pid → ∀ w ∈ ws, ∀ w' ∈ (s.txs q).writes, w.key ≠ w'.key

instance (s : System n) (pid : Fin n) (ws : List Write) : Decidable (s.Free pid ws) :=
  inferInstanceAs (Decidable (∀ q, q ≠ pid → ∀ w ∈ ws, ∀ w' ∈ _, _))

/-- A statement of `pid` with these writes; it waits for rows that somebody else has
written. -/
def write (s : System n) (pid : Fin n) (ws : List Write) (tx : Tx) : Option (System n) :=
  if s.Free pid ws then some (s.set pid tx) else none

theorem write_eq {s u : System n} {pid : Fin n} {ws : List Write} {tx : Tx}
    (h : s.write pid ws tx = some u) : s.Free pid ws ∧ s.set pid tx = u := by
  simpa [write] using h

/-- The answer of `get_menu`. -/
def getMenu (s : System n) (id : RestaurantId) : Option MenuDoc :=
  match s.cache id with
  | some doc => some doc
  | none => s.db.document id

end System

abbrev applyWrites : List Write → Db → Db := applyAll Write.apply

section

variable (defaultTimezone : String) (purposeOf : ℕ → Purpose)

/-- The next step of a mutation. -/
def runTx (s : System n) (pid : Fin n) (drawn : ℕ) : Tx → Option (System n)
  | .idle => none
  -- the answer without a change, and every error
  | .editing (.ret none) _ | .editing (.fail _) _ | .publishing _ _ (.fail _) _ _ =>
    some (s.set pid .idle)
  | .editing (.ret (some target)) edits =>
    some (s.set pid (.publishing target edits (publish target.restaurant target.event) [] []))
  | .editing p edits =>
    (p.advance Write.apply (Drawn purposeOf) s.db edits drawn).bind fun (p', w, _) =>
      s.write pid w (.editing p' (edits ++ w))
  | .publishing target edits (.ret affected) staged _ =>
    let db := applyWrites (edits ++ staged) s.db
    if db.Valid then
      some { s.set pid (.invalidating (if target.invalidates then affected else [])) with db := db }
    -- IntegrityError
    else some (s.set pid .idle)
  | .publishing target edits p staged facts =>
    (p.advance Write.apply (Drawn purposeOf) (applyWrites edits s.db) staged drawn).bind
      fun (p', w, facts') =>
        s.write pid w (.publishing target edits p' (staged ++ w) (facts ++ facts'))
  | .invalidating [] => some (s.set pid .idle)
  | .invalidating (id :: todo) =>
    some { s.set pid (.invalidating todo) with cache := Function.update s.cache id none }

def step (s : System n) : Event n → Option (System n)
  | .start pid call =>
    match s.txs pid with
    | .idle => some (s.set pid (.editing (call.body defaultTimezone) []))
    | _ => none
  | .run pid drawn => runTx purposeOf s pid drawn (s.txs pid)
  | .abort pid =>
    match s.txs pid with
    | .editing .. | .publishing .. => some (s.set pid .idle)
    | _ => none
  | .getMenu id => some { s with cache := Function.update s.cache id (s.getMenu id) }

/-! ### What a step can do -/

inductive Step (s : System n) : Event n → System n → Prop
  | start {pid : Fin n} {call : Call} : s.txs pid = .idle →
      Step s (.start pid call) (s.set pid (.editing (call.body defaultTimezone) []))
  /-- A mutation ends: without a commit, or with no cache keys left to delete. -/
  | ends {pid : Fin n} {e : Event n} : (∀ id todo, s.txs pid ≠ .invalidating (id :: todo)) →
      Step s e (s.set pid .idle)
  | publishes {pid : Fin n} {u : ℕ} {target : Target} {edits : List Write} :
      s.txs pid = .editing (.ret (some target)) edits →
        Step s (.run pid u)
          (s.set pid (.publishing target edits (publish target.restaurant target.event) [] []))
  | edits {pid : Fin n} {u : ℕ} {p p' : Session (Option Target)} {edits w : List Write}
      {facts : List (Db → Bool)} : s.txs pid = .editing p edits →
        p.advance Write.apply (Drawn purposeOf) s.db edits u = some (p', w, facts) →
          s.Free pid w → Step s (.run pid u) (s.set pid (.editing p' (edits ++ w)))
  | stages {pid : Fin n} {u : ℕ} {target : Target} {edits staged w : List Write}
      {p p' : Session (List RestaurantId)} {facts facts' : List (Db → Bool)} :
      s.txs pid = .publishing target edits p staged facts →
        p.advance Write.apply (Drawn purposeOf) (applyWrites edits s.db) staged u =
          some (p', w, facts') →
            s.Free pid w → Step s (.run pid u)
              (s.set pid (.publishing target edits p' (staged ++ w) (facts ++ facts')))
  | commits {pid : Fin n} {u : ℕ} {target : Target} {edits staged : List Write}
      {affected : List RestaurantId} {facts : List (Db → Bool)} :
      s.txs pid = .publishing target edits (.ret affected) staged facts →
        (applyWrites (edits ++ staged) s.db).Valid → Step s (.run pid u)
          { s.set pid (.invalidating (if target.invalidates then affected else [])) with
            db := applyWrites (edits ++ staged) s.db }
  | invalidates {pid : Fin n} {u : ℕ} {id : RestaurantId} {todo : List RestaurantId} :
      s.txs pid = .invalidating (id :: todo) → Step s (.run pid u)
        { s.set pid (.invalidating todo) with cache := Function.update s.cache id none }
  | getMenu {id : RestaurantId} :
      Step s (.getMenu id) { s with cache := Function.update s.cache id (s.getMenu id) }

theorem step_cases {s u : System n} {e : Event n}
    (h : step defaultTimezone purposeOf s e = some u) : Step defaultTimezone purposeOf s e u := by
  cases e with
  | start pid call =>
    simp only [step] at h
    split at h
    · next hidle =>
      cases h
      exact .start hidle
    · cases h
  | getMenu id =>
    cases h
    exact .getMenu
  | abort pid =>
    simp only [step] at h
    split at h
    · next htx =>
      cases h
      exact .ends (by simp [htx])
    · next htx =>
      cases h
      exact .ends (by simp [htx])
    · cases h
  | run pid u =>
    simp only [step] at h
    cases htx : s.txs pid with
    | idle =>
      rw [htx] at h
      cases h
    | invalidating todo =>
      rw [htx] at h
      cases todo with
      | nil =>
        cases h
        exact .ends (by simp [htx])
      | cons id todo =>
        cases h
        exact .invalidates htx
    | editing p edits =>
      rw [htx] at h
      cases p with
      | ret target =>
        cases target with
        | none =>
          cases h
          exact .ends (by simp [htx])
        | some target =>
          cases h
          exact .publishes htx
      | fail e =>
        cases h
        exact .ends (by simp [htx])
      | stmt q k =>
        obtain ⟨⟨p', w, facts⟩, ha, h⟩ := Option.bind_eq_some_iff.mp h
        obtain ⟨hfree, rfl⟩ := System.write_eq h
        exact .edits htx ha hfree
      | draw purpose k =>
        obtain ⟨⟨p', w, facts⟩, ha, h⟩ := Option.bind_eq_some_iff.mp h
        obtain ⟨hfree, rfl⟩ := System.write_eq h
        exact .edits htx ha hfree
    | publishing target edits p staged facts =>
      rw [htx] at h
      cases p with
      | ret affected =>
        simp only [runTx] at h
        split at h
        · next hvalid =>
          cases h
          exact .commits htx hvalid
        · cases h
          exact .ends (by simp [htx])
      | fail e =>
        cases h
        exact .ends (by simp [htx])
      | stmt q k =>
        obtain ⟨⟨p', w, facts'⟩, ha, h⟩ := Option.bind_eq_some_iff.mp h
        obtain ⟨hfree, rfl⟩ := System.write_eq h
        exact .stages htx ha hfree
      | draw purpose k =>
        obtain ⟨⟨p', w, facts'⟩, ha, h⟩ := Option.bind_eq_some_iff.mp h
        obtain ⟨hfree, rfl⟩ := System.write_eq h
        exact .stages htx ha hfree

end

end Catalog
