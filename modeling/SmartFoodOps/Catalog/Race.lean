/-
Concurrent create_restaurant and create_branch calls.

READ COMMITTED, statement by statement.  Foreign keys and unique indexes are checked as a
statement writes: an insert waits for a transaction in progress that has inserted the same
key or the same unique value, and fails when a committed row has it.  A call whose
transaction fails on a constraint rolls back and adopts the row that beat it.

* `Write.Accepted`, `Accepts` — the checks of a statement's writes;
* `adopt` — the answer with `created=False`;
* `Race.Proc` — a call in progress: its body, its publication, or its adoption;
* `Race.step` — one statement of one call; the answers are kept, newest first;
* `Race.Step`, `Race.step_cases` — what a step can do.
-/
import SmartFoodOps.Catalog.Calls

open Keyed Machine Program

namespace Catalog

/-! ### Checks as a statement writes -/

/-- The constraints of a write, on the rows that its statement sees.  The columns that these
calls update carry none. -/
def Write.Accepted (w : Write) (db : Db) : Prop :=
  match w with
  | insert row => (∀ k ∈ row.references, (db.put row).find k ≠ none) ∧
      ∀ row' ∈ db.rows, row.unique ≠ none → row.unique ≠ row'.unique
  | update _ _ => True
  | delete k => ∀ row ∈ db.rows, k ∉ row.references

instance (w : Write) (db : Db) : Decidable (w.Accepted db) := by
  unfold Write.Accepted
  split <;> infer_instance

/-- Row after row. -/
def Accepts : List Write → Db → Prop
  | [], _ => True
  | w :: ws, db => w.Accepted db ∧ Accepts ws (w.apply db)

instance decidableAccepts : (ws : List Write) → (db : Db) → Decidable (Accepts ws db)
  | [], _ => inferInstanceAs (Decidable True)
  | _ :: ws, _ =>
    have := decidableAccepts ws
    inferInstanceAs (Decidable (_ ∧ _))

/-- The unique value that a write inserts. -/
def Write.unique : Write → Option (String ⊕ (RestaurantId × String))
  | insert row => row.unique
  | _ => none

/-- The second of two transactions in progress waits for the first. -/
def Clash (w w' : Write) : Prop :=
  w.key = w'.key ∨ (w.unique ≠ none ∧ w.unique = w'.unique)

instance (w w' : Write) : Decidable (Clash w w') := inferInstanceAs (Decidable (_ ∨ _))

/-! ### The calls -/

/-- `create_restaurant` or `create_branch`. -/
def Call.creates : Call → Bool
  | createRestaurant .. | createBranch .. => true
  | _ => false

/-- The row that is there already, by owner or by label; `none` is a failed assertion. -/
def adopt : Call → Session (Option Restaurant)
  | .createRestaurant owner _ _ _ _ _ => do
    match ← select fun db => db.brandOfOwner owner with
    | none => return none
    | some winner => do
      let restaurant ← read winner.id
      return some restaurant
  | .createBranch brandId label _ _ => do
    match ← select fun db => (db.branches brandId).find? fun m => m.branchLabel = label with
    | none => return none
    | some winner => do
      let branch ← read winner.restaurantId
      return some branch
  | _ => return none

namespace Race

inductive Outcome
  /-- The new row, with `created=True`. -/
  | created (id : RestaurantId)
  /-- A row that was there, with `created=False`. -/
  | existing (r : Restaurant)
  | raised (e : CatalogError)
  /-- `assert winner is not None` has failed. -/
  | failed
  deriving DecidableEq

/-- The answer to a call; `lost` says that a foreign key or a unique index refused a row
of it. -/
structure Reply where
  call : Call
  lost : Bool
  outcome : Outcome
  deriving DecidableEq

/-- A call in progress. -/
inductive Proc : Type 1
  | idle
  | running (call : Call) (p : Session (Option Target)) (edits : List Write)
  | publishing (call : Call) (target : Target) (edits : List Write)
      (p : Session (List RestaurantId)) (staged : List Write)
  /-- It has rolled back, or found the row before it wrote any. -/
  | adopting (call : Call) (lost : Bool) (p : Session (Option Restaurant))

def Proc.writes : Proc → List Write
  | running _ _ edits => edits
  | publishing _ _ edits _ staged => edits ++ staged
  | _ => []

structure System (n : ℕ) : Type 1 where
  db : Db
  procs : Fin n → Proc
  replies : List Reply

inductive Event (n : ℕ)
  | start (pid : Fin n) (call : Call)
  /-- The next statement; `drawn` is the value that it draws, if it draws one. -/
  | run (pid : Fin n) (drawn : ℕ)
  /-- The connection is lost. -/
  | abort (pid : Fin n)
  deriving DecidableEq

variable {n : ℕ}

namespace System

def empty : System n := ⟨.empty, fun _ => .idle, []⟩

def set (s : System n) (pid : Fin n) (proc : Proc) : System n :=
  { s with procs := Function.update s.procs pid proc }

def reply (s : System n) (pid : Fin n) (call : Call) (lost : Bool) (outcome : Outcome) :
    System n :=
  { s.set pid .idle with replies := ⟨call, lost, outcome⟩ :: s.replies }

/-- No transaction in progress has to be waited for. -/
def Free (s : System n) (pid : Fin n) (ws : List Write) : Prop :=
  ∀ q, q ≠ pid → ∀ w ∈ ws, ∀ w' ∈ (s.procs q).writes, ¬ Clash w w'

instance (s : System n) (pid : Fin n) (ws : List Write) : Decidable (s.Free pid ws) :=
  inferInstanceAs (Decidable (∀ q, q ≠ pid → ∀ w ∈ ws, ∀ w' ∈ _, _))

/-- Some writes of a call that has written `ws`: they wait, fail on a constraint, or go
through. -/
def write (s : System n) (pid : Fin n) (call : Call) (ws w : List Write) (proc : Proc) :
    Option (System n) :=
  if s.Free pid w then
    if Accepts w (applyWrites ws s.db) then some (s.set pid proc)
    else some (s.set pid (.adopting call true (adopt call)))
  else none

end System

section

variable (defaultTimezone : String) (purposeOf : ℕ → Purpose)

/-- The next step of a call. -/
def runProc (s : System n) (pid : Fin n) (drawn : ℕ) : Proc → Option (System n)
  | .idle => none
  -- found by its own check: the row is found again, and read
  | .running call (.ret none) _ => some (s.set pid (.adopting call false (adopt call)))
  | .running call (.fail e) _ => some (s.reply pid call false (.raised e))
  | .running call (.ret (some target)) edits =>
    some (s.set pid (.publishing call target edits (publish target.restaurant target.event) []))
  | .running call p edits =>
    (p.advance Write.apply (Drawn purposeOf) s.db edits drawn).bind fun (p', w, _) =>
      s.write pid call edits w (.running call p' (edits ++ w))
  | .publishing call target edits (.ret _) staged =>
    some { s.reply pid call false (.created target.restaurant) with
      db := applyWrites (edits ++ staged) s.db }
  | .publishing call _ _ (.fail e) _ => some (s.reply pid call false (.raised e))
  | .publishing call target edits p staged =>
    (p.advance Write.apply (Drawn purposeOf) s.db (edits ++ staged) drawn).bind
      fun (p', w, _) =>
        s.write pid call (edits ++ staged) w (.publishing call target edits p' (staged ++ w))
  | .adopting call lost (.ret (some r)) => some (s.reply pid call lost (.existing r))
  | .adopting call lost (.ret none) => some (s.reply pid call lost .failed)
  | .adopting call lost (.fail e) => some (s.reply pid call lost (.raised e))
  | .adopting call lost p =>
    (p.advance Write.apply (Drawn purposeOf) s.db [] drawn).map fun (p', _, _) =>
      s.set pid (.adopting call lost p')

def step (s : System n) : Event n → Option (System n)
  | .start pid call =>
    match s.procs pid with
    | .idle =>
      if call.creates then some (s.set pid (.running call (call.body defaultTimezone) []))
      else none
    | _ => none
  | .run pid drawn => runProc purposeOf s pid drawn (s.procs pid)
  | .abort pid =>
    match s.procs pid with
    | .idle => none
    | _ => some (s.set pid .idle)

/-! ### What a step can do -/

/-- What an adoption that is through answers. -/
inductive Answers : Session (Option Restaurant) → Outcome → Prop
  | existing {r : Restaurant} : Answers (.ret (some r)) (.existing r)
  | failed : Answers (.ret none) .failed
  | raised {e : CatalogError} : Answers (.fail e) (.raised e)

inductive Step (s : System n) : Event n → System n → Prop
  | start {pid : Fin n} {call : Call} : s.procs pid = .idle → call.creates = true →
      Step s (.start pid call) (s.set pid (.running call (call.body defaultTimezone) []))
  | aborts {pid : Fin n} : Step s (.abort pid) (s.set pid .idle)
  /-- The body or the publication raises. -/
  | raises {pid : Fin n} {u : ℕ} {call : Call} {e : CatalogError} :
      Step s (.run pid u) (s.reply pid call false (.raised e))
  /-- Its own check has found the row. -/
  | finds {pid : Fin n} {u : ℕ} {call : Call} {edits : List Write} :
      s.procs pid = .running call (.ret none) edits →
        Step s (.run pid u) (s.set pid (.adopting call false (adopt call)))
  | publishes {pid : Fin n} {u : ℕ} {call : Call} {target : Target} {edits : List Write} :
      s.procs pid = .running call (.ret (some target)) edits → Step s (.run pid u)
        (s.set pid
          (.publishing call target edits (publish target.restaurant target.event) []))
  | edits {pid : Fin n} {u : ℕ} {call : Call} {p p' : Session (Option Target)}
      {edits w : List Write} {facts : List (Db → Bool)} : s.procs pid = .running call p edits →
        p.advance Write.apply (Drawn purposeOf) s.db edits u = some (p', w, facts) →
          s.Free pid w → Accepts w (applyWrites edits s.db) →
            Step s (.run pid u) (s.set pid (.running call p' (edits ++ w)))
  /-- A constraint refuses a row of the body. -/
  | loses {pid : Fin n} {u : ℕ} {call : Call} {p p' : Session (Option Target)}
      {edits w : List Write} {facts : List (Db → Bool)} : s.procs pid = .running call p edits →
        p.advance Write.apply (Drawn purposeOf) s.db edits u = some (p', w, facts) →
          ¬ Accepts w (applyWrites edits s.db) →
            Step s (.run pid u) (s.set pid (.adopting call true (adopt call)))
  | stages {pid : Fin n} {u : ℕ} {call : Call} {target : Target} {edits staged w : List Write}
      {p p' : Session (List RestaurantId)} {facts : List (Db → Bool)} :
      s.procs pid = .publishing call target edits p staged →
        p.advance Write.apply (Drawn purposeOf) s.db (edits ++ staged) u = some (p', w, facts) →
          s.Free pid w → Accepts w (applyWrites (edits ++ staged) s.db) →
            Step s (.run pid u)
              (s.set pid (.publishing call target edits p' (staged ++ w)))
  /-- A constraint refuses a row of the publication. -/
  | trips {pid : Fin n} {u : ℕ} {call : Call} {target : Target} {edits staged w : List Write}
      {p p' : Session (List RestaurantId)} {facts : List (Db → Bool)} :
      s.procs pid = .publishing call target edits p staged →
        p.advance Write.apply (Drawn purposeOf) s.db (edits ++ staged) u = some (p', w, facts) →
          ¬ Accepts w (applyWrites (edits ++ staged) s.db) →
            Step s (.run pid u) (s.set pid (.adopting call true (adopt call)))
  | commits {pid : Fin n} {u : ℕ} {call : Call} {target : Target} {edits staged : List Write}
      {affected : List RestaurantId} :
      s.procs pid = .publishing call target edits (.ret affected) staged → Step s (.run pid u)
        { s.reply pid call false (.created target.restaurant) with
          db := applyWrites (edits ++ staged) s.db }
  | adopts {pid : Fin n} {u : ℕ} {call : Call} {lost : Bool}
      {p p' : Session (Option Restaurant)} {w : List Write} {facts : List (Db → Bool)} :
      s.procs pid = .adopting call lost p →
        p.advance Write.apply (Drawn purposeOf) s.db [] u = some (p', w, facts) →
          Step s (.run pid u) (s.set pid (.adopting call lost p'))
  | answers {pid : Fin n} {u : ℕ} {call : Call} {lost : Bool}
      {p : Session (Option Restaurant)} {outcome : Outcome} :
      s.procs pid = .adopting call lost p → Answers p outcome →
        Step s (.run pid u) (s.reply pid call lost outcome)

theorem System.write_cases {s t : System n} {pid : Fin n} {call : Call} {ws w : List Write}
    {proc : Proc} (h : s.write pid call ws w proc = some t) :
    (s.Free pid w ∧ Accepts w (applyWrites ws s.db) ∧ t = s.set pid proc) ∨
      (¬ Accepts w (applyWrites ws s.db) ∧ t = s.set pid (.adopting call true (adopt call))) := by
  unfold System.write at h
  split at h
  · next hfree =>
    split at h
    · next haccepts =>
      cases h
      exact .inl ⟨hfree, haccepts, rfl⟩
    · next hrefused =>
      cases h
      exact .inr ⟨hrefused, rfl⟩
  · cases h

variable {defaultTimezone purposeOf}

theorem runProc_running {s t : System n} {pid : Fin n} {u : ℕ} {call : Call}
    {p : Session (Option Target)} {edits : List Write} (hproc : s.procs pid = .running call p edits)
    (h : runProc purposeOf s pid u (.running call p edits) = some t) :
    Step defaultTimezone purposeOf s (.run pid u) t := by
  have hstatement : (p.advance Write.apply (Drawn purposeOf) s.db edits u).bind
      (fun (p', w, _) => s.write pid call edits w (.running call p' (edits ++ w))) = some t →
        Step defaultTimezone purposeOf s (.run pid u) t := by
    intro h
    obtain ⟨⟨p', w, facts⟩, ha, h⟩ := Option.bind_eq_some_iff.mp h
    rcases System.write_cases h with ⟨hfree, haccepts, rfl⟩ | ⟨hrefused, rfl⟩
    · exact .edits hproc ha hfree haccepts
    · exact .loses hproc ha hrefused
  cases p with
  | ret target =>
    cases target with
    | none =>
      cases h
      exact .finds hproc
    | some target =>
      cases h
      exact .publishes hproc
  | fail e =>
    cases h
    exact .raises
  | stmt q k => exact hstatement h
  | draw purpose k => exact hstatement h

theorem runProc_publishing {s t : System n} {pid : Fin n} {u : ℕ} {call : Call} {target : Target}
    {p : Session (List RestaurantId)} {edits staged : List Write}
    (hproc : s.procs pid = .publishing call target edits p staged)
    (h : runProc purposeOf s pid u (.publishing call target edits p staged) = some t) :
    Step defaultTimezone purposeOf s (.run pid u) t := by
  have hstatement : (p.advance Write.apply (Drawn purposeOf) s.db (edits ++ staged) u).bind
      (fun (p', w, _) => s.write pid call (edits ++ staged) w
        (.publishing call target edits p' (staged ++ w))) = some t →
        Step defaultTimezone purposeOf s (.run pid u) t := by
    intro h
    obtain ⟨⟨p', w, facts⟩, ha, h⟩ := Option.bind_eq_some_iff.mp h
    rcases System.write_cases h with ⟨hfree, haccepts, rfl⟩ | ⟨hrefused, rfl⟩
    · exact .stages hproc ha hfree haccepts
    · exact .trips hproc ha hrefused
  cases p with
  | ret affected =>
    cases h
    exact .commits hproc
  | fail e =>
    cases h
    exact .raises
  | stmt q k => exact hstatement h
  | draw purpose k => exact hstatement h

theorem runProc_adopting {s t : System n} {pid : Fin n} {u : ℕ} {call : Call} {lost : Bool}
    {p : Session (Option Restaurant)} (hproc : s.procs pid = .adopting call lost p)
    (h : runProc purposeOf s pid u (.adopting call lost p) = some t) :
    Step defaultTimezone purposeOf s (.run pid u) t := by
  have hstatement : (p.advance Write.apply (Drawn purposeOf) s.db [] u).map
      (fun (p', _, _) => s.set pid (.adopting call lost p')) = some t →
        Step defaultTimezone purposeOf s (.run pid u) t := by
    intro h
    obtain ⟨⟨p', w, facts⟩, ha, rfl⟩ := Option.map_eq_some_iff.mp h
    exact .adopts hproc ha
  cases p with
  | ret r =>
    cases r with
    | none =>
      cases h
      exact .answers hproc .failed
    | some r =>
      cases h
      exact .answers hproc .existing
  | fail e =>
    cases h
    exact .answers hproc .raised
  | stmt q k => exact hstatement h
  | draw purpose k => exact hstatement h

theorem step_cases {s t : System n} {e : Event n}
    (h : step defaultTimezone purposeOf s e = some t) : Step defaultTimezone purposeOf s e t := by
  cases e with
  | start pid call =>
    simp only [step] at h
    split at h
    · next hidle =>
      split at h
      · next hcreates =>
        cases h
        exact .start hidle hcreates
      · cases h
    · cases h
  | abort pid =>
    simp only [step] at h
    split at h
    · cases h
    · cases h
      exact .aborts
  | run pid u =>
    simp only [step] at h
    cases hproc : s.procs pid with
    | idle =>
      rw [hproc] at h
      cases h
    | running call p edits =>
      rw [hproc] at h
      exact runProc_running hproc h
    | publishing call target edits p staged =>
      rw [hproc] at h
      exact runProc_publishing hproc h
    | adopting call lost p =>
      rw [hproc] at h
      exact runProc_adopting hproc h

end

end Race

end Catalog
