/-
Grants of roles, statement by statement, next to logins and refreshes.

* `Tables` — the accounts, and the riders;
* `grantRestaurantAdmin`, `grantRider` — as programs of statements;
* `System`, `step` — grants and issues in progress, READ COMMITTED: a write waits for a
  transaction in progress that has written the same row;
* `InStep` — no user has both roles, the rows are there exactly with the roles, and no token
  says more than its roles;
* `Apart`, `sound_step` — a grant of a role to a user who does not have the other one;
* `Undisturbed`, `apart_of_undisturbed` — no grant of the other role is committed between a
  grant's read of the roles and its commit, and the check that the code makes then suffices;
* `inStep_of_run` — the role classes are in step after every undisturbed run.

A login or a refresh is followed from where it has found its user, through the two reads of
`_issue_pair`; a registration is one step.
-/
import SmartFoodOps.Identity.Accounts
import SmartFoodOps.Lib.Overlap

open Auth Machine Program

namespace Identity.Grants

/-! ### Tables -/

structure Tables where
  accounts : Accounts
  /-- `riders`, by user. -/
  riders : List UserId
  deriving DecidableEq

inductive Write
  | setOwnerBrand (id : UserId) (brandId : String)
  | addRole (id : UserId) (role : String)
  | addRider (id : UserId)
  deriving DecidableEq

namespace Write

/-- The writes are about one row. -/
def SameRow : Write → Write → Prop
  | setOwnerBrand id _, setOwnerBrand id' _ => id = id'
  | addRole id role, addRole id' role' => id = id' ∧ role = role'
  | addRider id, addRider id' => id = id'
  | _, _ => False

instance (w w' : Write) : Decidable (SameRow w w') := by
  unfold SameRow
  split <;> infer_instance

def apply : Write → Tables → Tables
  | setOwnerBrand id brandId, t => { t with accounts := t.accounts.setOwnerBrand id brandId }
  | addRole id role, t => { t with accounts := t.accounts.addRole id role }
  | addRider id, t => if id ∈ t.riders then t else { t with riders := t.riders ++ [id] }

end Write

/-! ### The calls -/

/-- Nothing is drawn. -/
abbrev Grant := Prog Tables Write AccountError Empty

abbrev select {α : Type} [DecidableEq α] (q : Tables → α) : Grant α := Prog.select q

def write (w : Write) : Grant Unit := Prog.execute fun _ => some ((), [w])

def grantRestaurantAdmin (userId : UserId) (restaurantId : String) : Grant Unit := do
  match ← select fun t => t.accounts.userById userId with
  | none => .fail .unknownUser
  | some _ => do
    let roles ← select fun t => t.accounts.rolesOf userId
    -- riders can't own restaurants
    if Role.rider.name ∈ roles then .fail .grantConflict
    else do
      let previous ← select fun t => t.accounts.ownerBrand userId
      if previous = some restaurantId then return ()
      else do
        write (.setOwnerBrand userId restaurantId)
        write (.addRole userId Role.restaurantAdmin.name)

def grantRider (userId : UserId) : Grant Unit := do
  match ← select fun t => t.accounts.userById userId with
  | none => .fail .unknownUser
  | some _ => do
    let roles ← select fun t => t.accounts.rolesOf userId
    if Role.rider.name ∈ roles then return ()
    -- owners don't moonlight as couriers
    else if Role.restaurantAdmin.name ∈ roles then .fail .grantConflict
    else do
      write (.addRole userId Role.rider.name)
      write (.addRider userId)

inductive Call
  | restaurantAdmin (userId : UserId) (restaurantId : String)
  | rider (userId : UserId)
  deriving DecidableEq

def Call.body : Call → Grant Unit
  | restaurantAdmin userId restaurantId => grantRestaurantAdmin userId restaurantId
  | rider userId => grantRider userId

/-! ### Calls in progress -/

inductive Proc : Type 1
  | idle
  | granting (call : Call) (p : Grant Unit) (writes : List Write)
  /-- `_issue_pair`, before it reads the roles. -/
  | issuing (userId : UserId)
  /-- `_issue_pair`, before it reads the brand. -/
  | rolesRead (userId : UserId) (roles : Finset String)

def Proc.writes : Proc → List Write
  | granting _ _ ws => ws
  | _ => []

structure System (n : ℕ) : Type 1 where
  tables : Tables
  procs : Fin n → Proc
  /-- The claims of the tokens that have been issued. -/
  tokens : List Claims

inductive Event (n : ℕ)
  | register (user : User)
  | grant (pid : Fin n) (call : Call)
  | issue (pid : Fin n) (userId : UserId)
  /-- The next statement, or the commit. -/
  | run (pid : Fin n)
  | abort (pid : Fin n)
  deriving DecidableEq

variable {n : ℕ}

namespace System

def start : System n := ⟨⟨⟨[], [], []⟩, []⟩, fun _ => .idle, []⟩

def set (s : System n) (pid : Fin n) (proc : Proc) : System n :=
  { s with procs := Function.update s.procs pid proc }

/-- No transaction in progress has written the row. -/
def Free (s : System n) (pid : Fin n) (ws : List Write) : Prop :=
  ∀ q, q ≠ pid → ∀ w ∈ ws, ∀ w' ∈ (s.procs q).writes, ¬ w.SameRow w'

instance (s : System n) (pid : Fin n) (ws : List Write) : Decidable (s.Free pid ws) :=
  inferInstanceAs (Decidable (∀ q, q ≠ pid → ∀ w ∈ ws, ∀ w' ∈ _, _))

end System

def runProc (s : System n) (pid : Fin n) : Proc → Option (System n)
  | .idle => none
  | .granting _ (.ret ()) ws =>
    some { s.set pid .idle with tables := applyAll Write.apply ws s.tables }
  | .granting _ (.fail _) _ => some (s.set pid .idle)
  | .granting call p ws =>
    (p.advance Write.apply (fun _ _ => True) s.tables ws 0).bind fun (p', w, _) =>
      if s.Free pid w then some (s.set pid (.granting call p' (ws ++ w))) else none
  | .issuing id => some (s.set pid (.rolesRead id (s.tables.accounts.rolesOf id)))
  | .rolesRead id roles =>
    match issue id roles (s.tables.accounts.ownerBrand id)
        (if Role.rider.name ∈ roles then some id else none) with
    | none => some (s.set pid .idle)
    | some claims => some { s.set pid .idle with tokens := claims :: s.tokens }

def step (s : System n) : Event n → Option (System n)
  | .register user =>
    match s.tables.accounts.insertUser user with
    | .error _ => none
    | .ok a =>
      some { s with tables := { s.tables with accounts := a.addRole user.id Role.customer.name } }
  | .grant pid call =>
    match s.procs pid with
    | .idle => some (s.set pid (.granting call call.body []))
    | _ => none
  | .issue pid id =>
    match s.procs pid, s.tables.accounts.userById id with
    | .idle, some _ => some (s.set pid (.issuing id))
    | _, _ => none
  | .run pid => runProc s pid (s.procs pid)
  | .abort pid => some (s.set pid .idle)

/-- What a step can do. -/
inductive Step (s : System n) : Event n → System n → Prop
  | registers {user : User} {a : Accounts} : s.tables.accounts.insertUser user = .ok a →
      Step s (.register user)
        { s with tables := { s.tables with accounts := a.addRole user.id Role.customer.name } }
  | starts {pid : Fin n} {call : Call} :
      Step s (.grant pid call) (s.set pid (.granting call call.body []))
  | advances {pid : Fin n} {call : Call} {p p' : Grant Unit} {ws w : List Write}
      {facts : List (Tables → Bool)} : s.procs pid = .granting call p ws →
        p.advance Write.apply (fun _ _ => True) s.tables ws 0 = some (p', w, facts) →
          Step s (.run pid) (s.set pid (.granting call p' (ws ++ w)))
  | commits {pid : Fin n} {call : Call} {ws : List Write} :
      s.procs pid = .granting call (.ret ()) ws →
        Step s (.run pid) { s.set pid .idle with tables := applyAll Write.apply ws s.tables }
  | finds {pid : Fin n} {id : UserId} : Step s (.issue pid id) (s.set pid (.issuing id))
  | reads {pid : Fin n} {id : UserId} :
      Step s (.run pid) (s.set pid (.rolesRead id (s.tables.accounts.rolesOf id)))
  | issues {pid : Fin n} {id : UserId} {roles : Finset String} {claims : Claims} :
      s.procs pid = .rolesRead id roles →
        issue id roles (s.tables.accounts.ownerBrand id)
          (if Role.rider.name ∈ roles then some id else none) = some claims →
          Step s (.run pid) { s.set pid .idle with tokens := claims :: s.tokens }
  /-- It has raised, or its connection is lost. -/
  | ends {e : Event n} {pid : Fin n} : e = .run pid ∨ e = .abort pid → Step s e (s.set pid .idle)

theorem runProc_granting {s t : System n} {pid : Fin n} {call : Call} {p : Grant Unit}
    {ws : List Write} (hproc : s.procs pid = .granting call p ws)
    (h : runProc s pid (.granting call p ws) = some t) : Step s (.run pid) t := by
  cases p with
  | ret u =>
    cases h
    exact .commits hproc
  | fail e =>
    cases h
    exact .ends (.inl rfl)
  | stmt q k =>
    obtain ⟨⟨p', w, facts⟩, ha, h⟩ := Option.bind_eq_some_iff.mp h
    simp only at h
    split at h
    · cases h
      exact .advances hproc ha
    · cases h
  | draw purpose k => exact purpose.elim

theorem step_cases {s t : System n} {e : Event n} (h : step s e = some t) : Step s e t := by
  cases e with
  | register user =>
    simp only [step] at h
    split at h
    · cases h
    · next a ha =>
      cases h
      exact .registers ha
  | grant pid call =>
    simp only [step] at h
    split at h
    · cases h
      exact .starts
    · cases h
  | issue pid id =>
    simp only [step] at h
    split at h
    · cases h
      exact .finds
    · cases h
  | run pid =>
    simp only [step] at h
    cases hproc : s.procs pid with
    | idle =>
      rw [hproc] at h
      cases h
    | granting call p ws =>
      rw [hproc] at h
      exact runProc_granting hproc h
    | issuing id =>
      rw [hproc] at h
      cases h
      exact .reads
    | rolesRead id roles =>
      rw [hproc] at h
      simp only [runProc] at h
      split at h
      · cases h
        exact .ends (.inl rfl)
      · next claims hissue =>
        cases h
        exact .issues hproc hissue
  | abort pid =>
    cases h
    exact .ends (.inr rfl)

/-! ### What a grant writes -/

/-- A grant has written nothing, or the role with its row. -/
def Call.Writes (call : Call) (ws : List Write) : Prop :=
  ws = [] ∨ match call with
    | .restaurantAdmin userId restaurantId =>
      ws = [.setOwnerBrand userId restaurantId, .addRole userId Role.restaurantAdmin.name]
    | .rider userId => ws = [.addRole userId Role.rider.name, .addRider userId]

/-- Whatever its statements see. -/
abbrev Granting (p : Grant Unit) (call : Call) (ws : List Write) : Prop :=
  Ensures (fun _ _ => True) (fun _ => True) (fun _ => True) p (fun _ ws => call.Writes ws) ws

theorem ensures_write {w : Write} {Q : Unit → List Write → Prop} {ws : List Write}
    (h : Q () (ws ++ [w])) :
    Ensures (fun _ _ => True) (fun _ => True) (fun _ => True) (write w) Q ws := by
  refine ensures_execute fun t u w' _ hw => ⟨fun _ _ => trivial, ?_⟩
  cases hw
  exact h

theorem granting_body (call : Call) : Granting call.body call [] := by
  cases call with
  | restaurantAdmin userId restaurantId =>
    refine ensures_bind.mpr (ensures_select fun _ _ => ?_)
    split
    · trivial
    refine ensures_bind.mpr (ensures_select fun _ _ => ?_)
    split
    · trivial
    refine ensures_bind.mpr (ensures_select fun _ _ => ?_)
    split
    · exact .inl rfl
    · exact ensures_bind.mpr (ensures_write (ensures_write (.inr rfl)))
  | rider userId =>
    refine ensures_bind.mpr (ensures_select fun _ _ => ?_)
    split
    · trivial
    refine ensures_bind.mpr (ensures_select fun _ _ => ?_)
    split
    · exact .inl rfl
    split
    · trivial
    · exact ensures_bind.mpr (ensures_write (ensures_write (.inr rfl)))

/-- What a grant commits is a change of accounts as their sessions know it. -/
theorem change_of_writes {call : Call} {ws : List Write} (h : call.Writes ws) (user : User)
    (t : Tables) :
    ∃ change : Change, change.run t.accounts = .ok (applyAll Write.apply ws t).accounts := by
  rcases h with rfl | h
  · refine ⟨.grantRider (some user) {Role.rider.name} user.id, ?_⟩
    simp only [Change.run, Identity.grantRider, Finset.mem_singleton_self, if_true, applyAll_nil]
  cases call with
  | restaurantAdmin userId restaurantId =>
    obtain rfl := h
    refine ⟨.grantRestaurantAdmin (some user) ∅ none userId restaurantId, ?_⟩
    simp only [Change.run, Identity.grantRestaurantAdmin, Finset.notMem_empty, if_false,
      reduceCtorEq]
    rfl
  | rider userId =>
    obtain rfl := h
    refine ⟨.grantRider (some user) ∅ userId, ?_⟩
    simp only [Change.run, Identity.grantRider, Finset.notMem_empty, if_false, applyAll_cons,
      applyAll_nil, Write.apply]
    split <;> rfl

/-! ### Roles and rows -/

/-- There is a `restaurant_owners` row for the user. -/
def Owns (a : Accounts) (id : UserId) : Prop := ∃ o ∈ a.owners, o.1 = id

theorem owns_iff {a : Accounts} {id : UserId} : Owns a id ↔ a.ownerBrand id ≠ none := by
  unfold Owns Accounts.ownerBrand
  rw [ne_eq, Option.map_eq_none_iff, List.find?_eq_none]
  simp

theorem owns_setOwnerBrand {a : Accounts} {id id' : UserId} {brandId : String} :
    Owns (a.setOwnerBrand id brandId) id' ↔ Owns a id' ∨ id' = id := by
  unfold Owns Accounts.setOwnerBrand
  split
  · next hany =>
    obtain ⟨o, ho, hid⟩ := List.any_eq_true.mp hany
    have hid : o.1 = id := of_decide_eq_true hid
    constructor
    · rintro ⟨o', ho', rfl⟩
      obtain ⟨o'', ho'', rfl⟩ := List.mem_map.mp ho'
      split
      · exact .inr rfl
      · exact .inl ⟨o'', ho'', rfl⟩
    · rintro (⟨o', ho', rfl⟩ | rfl)
      · refine ⟨_, List.mem_map.mpr ⟨o', ho', rfl⟩, ?_⟩
        split
        · next he => exact he.symm
        · rfl
      · refine ⟨_, List.mem_map.mpr ⟨o, ho, rfl⟩, ?_⟩
        rw [if_pos hid]
  · constructor
    · rintro ⟨o, ho, rfl⟩
      rcases List.mem_append.mp ho with ho | ho
      · exact .inl ⟨o, ho, rfl⟩
      · exact .inr (by rw [List.mem_singleton.mp ho])
    · rintro (⟨o, ho, rfl⟩ | rfl)
      · exact ⟨o, List.mem_append_left _ ho, rfl⟩
      · exact ⟨_, List.mem_append_right _ (List.mem_singleton_self _), rfl⟩

theorem mem_rolesOf_addRole {a : Accounts} {id id' : UserId} {role role' : String} :
    role' ∈ (a.addRole id role).rolesOf id' ↔ role' ∈ a.rolesOf id' ∨ (id' = id ∧ role' = role) := by
  rw [Accounts.mem_rolesOf, Accounts.mem_addRole, Accounts.mem_rolesOf, Prod.mk.injEq]

/-- The roles are apart, and the rows are there exactly with them. -/
structure Aligned (t : Tables) : Prop where
  apart : ∀ id, ¬ (Role.rider.name ∈ t.accounts.rolesOf id ∧
    Role.restaurantAdmin.name ∈ t.accounts.rolesOf id)
  riders : ∀ id, id ∈ t.riders ↔ Role.rider.name ∈ t.accounts.rolesOf id
  owners : ∀ id, Owns t.accounts id ↔ Role.restaurantAdmin.name ∈ t.accounts.rolesOf id

/-- A token says no more than its roles. -/
structure Modest (claims : Claims) : Prop where
  restaurantId : claims.restaurantId ≠ none → Role.restaurantAdmin.name ∈ claims.roles
  riderId : claims.riderId ≠ none → Role.rider.name ∈ claims.roles

/-- **The role classes are disjoint and in step.** -/
structure InStep (s : System n) : Prop where
  tables : Aligned s.tables
  tokens : ∀ claims ∈ s.tokens, Modest claims

/-! ### Grants that commit apart -/

/-- No role is written to a user who has the other one. -/
def Exclusive (a : Accounts) (ws : List Write) : Prop :=
  ∀ w ∈ ws, match w with
    | .addRole id role =>
      (role = Role.rider.name → Role.restaurantAdmin.name ∉ a.rolesOf id) ∧
        (role = Role.restaurantAdmin.name → Role.rider.name ∉ a.rolesOf id)
    | _ => True

/-- No brand is written for a user of whom a login or a refresh has read the roles, without
this one, but not yet the brand. -/
def Unread (s : System n) (ws : List Write) : Prop :=
  ∀ w ∈ ws, match w with
    | .setOwnerBrand id _ => ∀ q, match s.procs q with
      | .rolesRead id' roles => id' = id → Role.restaurantAdmin.name ∈ roles
      | _ => True
    | _ => True

/-- A grant that commits is exclusive, and nobody is between reads that it changes. -/
def Apart (s : System n) : Event n → Prop
  | .run pid =>
    match s.procs pid with
    | .granting _ (.ret ()) ws => Exclusive s.tables.accounts ws ∧ Unread s ws
    | _ => True
  | _ => True

instance (s : System n) (ws : List Write) : Decidable (Unread s ws) := by
  unfold Unread
  refine @List.decidableBAll _ _ (fun w => ?_) ws
  split
  · refine @Fintype.decidableForallFintype _ _ (fun q => ?_) _
    split <;> infer_instance
  · infer_instance

/-- What holds of a state. -/
structure Sound (s : System n) : Prop extends InStep s where
  procs : ∀ pid, match s.procs pid with
    | .granting call p ws => Granting p call ws
    | .rolesRead id roles => Owns s.tables.accounts id → Role.restaurantAdmin.name ∈ roles
    | _ => True

theorem aligned_addRole {t : Tables} (h : Aligned t) {id : UserId} {role : String}
    (hrider : role ≠ Role.rider.name) (hadmin : role ≠ Role.restaurantAdmin.name) :
    Aligned { t with accounts := t.accounts.addRole id role } := by
  have hroles : ∀ id' role', role' ≠ role →
      (role' ∈ (t.accounts.addRole id role).rolesOf id' ↔ role' ∈ t.accounts.rolesOf id') := by
    intro id' role' hne
    rw [mem_rolesOf_addRole]
    exact ⟨fun h => h.resolve_right fun h => hne h.2, .inl⟩
  refine ⟨fun id' => ?_, fun id' => ?_, fun id' => ?_⟩
  · rw [hroles id' _ hrider.symm, hroles id' _ hadmin.symm]
    exact h.apart id'
  · rw [hroles id' _ hrider.symm]
    exact h.riders id'
  · rw [hroles id' _ hadmin.symm, ← h.owners id']
    unfold Owns
    rw [Accounts.owners_addRole]

/-- The role and the row come together. -/
theorem aligned_commit {t : Tables} {call : Call} {ws : List Write} (h : Aligned t)
    (hws : call.Writes ws) (hexclusive : Exclusive t.accounts ws) :
    Aligned (applyAll Write.apply ws t) := by
  rcases hws with rfl | hws
  · exact h
  cases call with
  | restaurantAdmin userId restaurantId =>
    obtain rfl := hws
    have hrider : Role.rider.name ∉ t.accounts.rolesOf userId :=
      (hexclusive (.addRole userId Role.restaurantAdmin.name) (by simp)).2 rfl
    have hroles : ∀ id role, role ∈ ((t.accounts.setOwnerBrand userId restaurantId).addRole userId
        Role.restaurantAdmin.name).rolesOf id ↔
          role ∈ t.accounts.rolesOf id ∨ (id = userId ∧ role = Role.restaurantAdmin.name) := by
      intro id role
      rw [mem_rolesOf_addRole, Accounts.mem_rolesOf, Accounts.mem_rolesOf]
      obtain ⟨owners, heq, -⟩ := @Accounts.setOwnerBrand_eq t.accounts userId restaurantId
      rw [heq]
    have hne : Role.rider.name ≠ Role.restaurantAdmin.name := by decide
    show Aligned ⟨(t.accounts.setOwnerBrand userId restaurantId).addRole userId
      Role.restaurantAdmin.name, t.riders⟩
    refine ⟨fun id => ?_, fun id => ?_, fun id => ?_⟩
    · rw [hroles, hroles]
      rintro ⟨hr | ⟨-, hr⟩, ha | ⟨rfl, -⟩⟩
      · exact h.apart id ⟨hr, ha⟩
      · exact hrider hr
      · exact hne hr
      · exact hne hr
    · rw [hroles]
      exact (h.riders id).trans ⟨.inl, fun hr => hr.resolve_right fun hr => hne hr.2⟩
    · rw [hroles, ← h.owners id]
      show Owns ((t.accounts.setOwnerBrand userId restaurantId).addRole userId _) id ↔ _
      unfold Owns
      rw [Accounts.owners_addRole]
      exact owns_setOwnerBrand.trans (or_congr_right ⟨fun he => ⟨he, rfl⟩, And.left⟩)
  | rider userId =>
    obtain rfl := hws
    have hadmin : Role.restaurantAdmin.name ∉ t.accounts.rolesOf userId :=
      (hexclusive (.addRole userId Role.rider.name) (by simp)).1 rfl
    have hne : Role.restaurantAdmin.name ≠ Role.rider.name := by decide
    obtain ⟨riders, hriders, heq⟩ : ∃ riders, (∀ id, id ∈ riders ↔ id ∈ t.riders ∨ id = userId) ∧
        applyAll Write.apply [.addRole userId Role.rider.name, .addRider userId] t =
          ⟨t.accounts.addRole userId Role.rider.name, riders⟩ := by
      by_cases hmem : userId ∈ t.riders
      · refine ⟨t.riders, fun id => ⟨.inl, fun h => h.elim (fun h => h) ?_⟩, ?_⟩
        · rintro rfl
          exact hmem
        · simp [applyAll_cons, Write.apply, hmem]
      · refine ⟨t.riders ++ [userId], fun id => by simp, ?_⟩
        simp [applyAll_cons, Write.apply, hmem]
    rw [heq]
    refine ⟨fun id => ?_, fun id => ?_, fun id => ?_⟩
    · show ¬ (_ ∈ (t.accounts.addRole userId _).rolesOf id ∧ _)
      rw [mem_rolesOf_addRole, mem_rolesOf_addRole]
      rintro ⟨hr | ⟨rfl, -⟩, ha | ⟨-, ha⟩⟩
      · exact h.apart id ⟨hr, ha⟩
      · exact hne ha
      · exact hadmin ha
      · exact hne ha
    · show _ ↔ _ ∈ (t.accounts.addRole userId _).rolesOf id
      rw [hriders, h.riders id, mem_rolesOf_addRole]
      exact or_congr_right ⟨fun he => ⟨he, rfl⟩, And.left⟩
    · show Owns (t.accounts.addRole userId _) id ↔ _ ∈ (t.accounts.addRole userId _).rolesOf id
      rw [mem_rolesOf_addRole, or_iff_left fun ha => hne ha.2, ← h.owners id]
      unfold Owns
      rw [Accounts.owners_addRole]

/-- The owners' rows that a commit adds. -/
theorem owns_commit {t : Tables} {call : Call} {ws : List Write} (hws : call.Writes ws)
    {id : UserId} (h : Owns (applyAll Write.apply ws t).accounts id) :
    Owns t.accounts id ∨ ∃ brandId, .setOwnerBrand id brandId ∈ ws := by
  rcases hws with rfl | hws
  · exact .inl h
  cases call with
  | restaurantAdmin userId restaurantId =>
    obtain rfl := hws
    have howns : Owns ((t.accounts.setOwnerBrand userId restaurantId).addRole userId
        Role.restaurantAdmin.name) id := h
    unfold Owns at howns
    rw [Accounts.owners_addRole] at howns
    rcases owns_setOwnerBrand.mp howns with howns | rfl
    · exact .inl howns
    · exact .inr ⟨restaurantId, List.mem_cons_self⟩
  | rider userId =>
    obtain rfl := hws
    have haccounts : (applyAll Write.apply [.addRole userId Role.rider.name, .addRider userId]
        t).accounts = t.accounts.addRole userId Role.rider.name := by
      simp only [applyAll_cons, applyAll_nil, Write.apply]
      split <;> rfl
    rw [haccounts] at h
    unfold Owns at h
    rw [Accounts.owners_addRole] at h
    exact .inl h

theorem modest_issue {id : UserId} {roles : Finset String} {brand : Option String} {claims : Claims}
    (hbrand : brand ≠ none → Role.restaurantAdmin.name ∈ roles)
    (h : issue id roles brand (if Role.rider.name ∈ roles then some id else none) = some claims) :
    Modest claims := by
  unfold issue at h
  split at h
  · cases h
    refine ⟨fun hb => (Finset.mem_sort _).mpr (hbrand hb), fun hr => (Finset.mem_sort _).mpr ?_⟩
    by_contra hnot
    exact hr (if_neg hnot)
  · cases h

variable {s t : System n} {e : Event n}

/-- One process moves, and the tables stay. -/
theorem Sound.set (h : Sound s) {pid : Fin n} {proc : Proc}
    (hproc : match proc with
      | .granting call p ws => Granting p call ws
      | .rolesRead id roles => Owns s.tables.accounts id → Role.restaurantAdmin.name ∈ roles
      | _ => True) : Sound (s.set pid proc) where
  toInStep := ⟨h.tables, h.tokens⟩
  procs q := by
    show match Function.update s.procs pid proc q with
      | .granting call p ws => Granting p call ws
      | .rolesRead id roles => Owns s.tables.accounts id → Role.restaurantAdmin.name ∈ roles
      | _ => True
    by_cases hq : q = pid
    · rw [hq, Function.update_self]
      exact hproc
    · rw [Function.update_of_ne hq]
      exact h.procs q

/-- The tables change, so that owners stay as they are for everybody who is between reads. -/
theorem Sound.tables_change (h : Sound s) {tables : Tables} (ht : Aligned tables)
    (howns : ∀ q id roles, s.procs q = .rolesRead id roles → Owns tables.accounts id →
      Owns s.tables.accounts id ∨ Role.restaurantAdmin.name ∈ roles) :
    Sound { s with tables := tables } where
  toInStep := ⟨ht, h.tokens⟩
  procs q := by
    have hq := h.procs q
    show match s.procs q with
      | .granting call p ws => Granting p call ws
      | .rolesRead id roles => Owns tables.accounts id → Role.restaurantAdmin.name ∈ roles
      | _ => True
    cases hproc : s.procs q with
    | idle | issuing => trivial
    | granting call p ws =>
      rw [hproc] at hq
      exact hq
    | rolesRead id roles =>
      rw [hproc] at hq
      exact fun ho => (howns q id roles hproc ho).elim hq fun hr => hr

theorem sound_step (hs : Sound s) (hok : Apart s e) (h : step s e = some t) : Sound t := by
  cases step_cases h with
  | @registers user a ha =>
    unfold Accounts.insertUser at ha
    split at ha
    · cases ha
    · cases ha
      refine hs.tables_change ?_ fun q id roles _ ho => .inl ?_
      · have husers : Aligned
            { s.tables with accounts.users := s.tables.accounts.users ++ [user] } :=
          ⟨hs.tables.apart, hs.tables.riders, hs.tables.owners⟩
        exact aligned_addRole husers (by decide) (by decide)
      · unfold Owns at ho ⊢
        rwa [Accounts.owners_addRole] at ho
  | @starts pid call => exact hs.set (granting_body call)
  | @advances pid call p p' ws w facts hproc ha =>
    have hp := hs.procs pid
    rw [hproc] at hp
    exact hs.set (hp.advance trivial ha).2
  | @commits pid call ws hproc =>
    have hp := hs.procs pid
    rw [hproc] at hp
    simp only [Apart, hproc] at hok
    obtain ⟨hexclusive, hunread⟩ := hok
    have hwrites : call.Writes ws := hp
    refine Sound.tables_change (@Sound.set _ s hs pid .idle trivial)
      (aligned_commit hs.tables hwrites hexclusive) fun q id roles hq ho => ?_
    rcases owns_commit hwrites ho with ho | ⟨brandId, hmem⟩
    · exact .inl ho
    · refine .inr ?_
      have hq' : s.procs q = .rolesRead id roles := by
        by_cases hqp : q = pid
        · have hset : (s.set pid .idle).procs q = .idle := by
            rw [hqp]
            exact Function.update_self _ _ _
          rw [hset] at hq
          cases hq
        · have hset : (s.set pid .idle).procs q = s.procs q := Function.update_of_ne hqp _ _
          rwa [hset] at hq
      have hread := hunread _ hmem q
      rw [hq'] at hread
      exact hread rfl
  | finds => exact hs.set trivial
  | @reads pid id => exact hs.set fun ho => (hs.tables.owners id).mp ho
  | @issues pid id roles claims hproc hissue =>
    have hp := hs.procs pid
    rw [hproc] at hp
    have hidle : Sound (s.set pid .idle) := hs.set trivial
    refine ⟨⟨hs.tables, List.forall_mem_cons.mpr ⟨?_, hs.tokens⟩⟩, hidle.procs⟩
    exact modest_issue (fun hb => hp (owns_iff.mpr hb)) hissue
  | ends => exact hs.set trivial

/-! ### Grants that nobody disturbs -/

/-- The user, and the role that he must not have. -/
def Call.opposite : Call → UserId × String
  | restaurantAdmin userId _ => (userId, Role.rider.name)
  | rider userId => (userId, Role.restaurantAdmin.name)

def Write.granted : Write → Option (UserId × String)
  | addRole id role => some (id, role)
  | _ => none

/-- The roles that a grant commits. -/
def granted (s : System n) : Event n → List (UserId × String)
  | .run pid =>
    match s.procs pid with
    | .granting _ (.ret ()) ws => ws.filterMap Write.granted
    | _ => []
  | _ => []

def watch : Watch (System n) (Event n) (Fin n) (UserId × String) where
  begins _ := fun
    | .grant pid _ => some pid
    | _ => none
  runs := fun
    | .run pid => some pid
    | _ => none
  commits := granted

/-- Between the `get_roles` of a grant that writes, its second statement, and its commit nobody
commits the other role of the user; and nobody is between reads that the commit changes. -/
def Undisturbed (w : Watched (System n) (Fin n) (UserId × String)) : Event n → Prop
  | .run pid =>
    match w.state.procs pid with
    | .granting call (.ret ()) ws =>
      (ws ≠ [] → ¬ w.Since pid 2 call.opposite) ∧ Unread w.state ws
    | _ => True
  | _ => True

instance (w : Watched (System n) (Fin n) (UserId × String)) (e : Event n) :
    Decidable (Undisturbed w e) := by
  unfold Undisturbed
  split
  · split <;> infer_instance
  · infer_instance

/-- A grant that has read the roles: it writes nothing, or the user has not got the other role,
unless somebody has granted it. -/
def Checked (call : Call) (crossed : Prop) (p : Grant Unit) (ws : List Write) (t : Tables) : Prop :=
  Ensures (fun _ _ => True) (fun _ => True) (fun _ => True) p (fun _ ws => ws = []) ws ∨
    crossed ∨ call.opposite.2 ∉ t.accounts.rolesOf call.opposite.1

/-- A grant before or after its second statement. -/
def Reading (w : Watched (System n) (Fin n) (UserId × String)) (pid : Fin n) (call : Call)
    (p : Grant Unit) (ws : List Write) : Prop :=
  After Write.apply (fun _ _ => True) (fun _ => False)
    (Checked call (w.Since pid 2 call.opposite)) (2 - w.ran pid) p ws w.state.tables

/-- **The check**: a grant goes on only if the user has not got the other role. -/
theorem after_body {call : Call} {crossed : Prop} {t : Tables} :
    After Write.apply (fun _ _ => True) (fun _ => False) (Checked call crossed) 2 call.body [] t := by
  cases call with
  | restaurantAdmin userId restaurantId =>
    intro t b w hb
    cases hb
    change After _ _ _ _ 1 _ _ _
    simp only [applyAll_nil, Prog.bind]
    split
    · trivial
    intro t' b w hb
    cases hb
    change Checked _ _ _ _ _
    simp only [applyAll_nil, Prog.bind, List.append_nil]
    split
    · exact .inl trivial
    · next hno => exact .inr (.inr hno)
  | rider userId =>
    intro t b w hb
    cases hb
    change After _ _ _ _ 1 _ _ _
    simp only [applyAll_nil, Prog.bind]
    split
    · trivial
    intro t' b w hb
    cases hb
    change Checked _ _ _ _ _
    simp only [applyAll_nil, Prog.bind, List.append_nil]
    split
    · exact .inl rfl
    split
    · exact .inl trivial
    · next hno => exact .inr (.inr hno)

/-- A role that is new after some writes is one that they grant. -/
theorem mem_rolesOf_applyAll {ws : List Write} {t : Tables} {id : UserId} {role : String}
    (h : role ∈ (applyAll Write.apply ws t).accounts.rolesOf id) :
    role ∈ t.accounts.rolesOf id ∨ (id, role) ∈ ws.filterMap Write.granted := by
  induction ws generalizing t with
  | nil => exact .inl h
  | cons w ws ih =>
    rcases ih h with h | h
    · cases w with
      | setOwnerBrand id' brandId =>
        refine .inl ?_
        obtain ⟨owners, heq, -⟩ := @Accounts.setOwnerBrand_eq t.accounts id' brandId
        have h : role ∈ (t.accounts.setOwnerBrand id' brandId).rolesOf id := h
        rw [heq] at h
        exact h
      | addRole id' role' =>
        rcases mem_rolesOf_addRole.mp h with h | ⟨rfl, rfl⟩
        · exact .inl h
        · exact .inr List.mem_cons_self
      | addRider id' =>
        refine .inl ?_
        simp only [Write.apply] at h
        split at h <;> exact h
    · refine .inr ?_
      obtain ⟨x, hx, hgranted⟩ := List.mem_filterMap.mp h
      exact List.mem_filterMap.mpr ⟨x, List.mem_cons_of_mem w hx, hgranted⟩

variable {w w' : Watched (System n) (Fin n) (UserId × String)}

/-- **An undisturbed grant** writes its role to a user who has not got the other one. -/
theorem apart_of_undisturbed (hs : Sound w.state)
    (hr : ∀ pid call p ws, w.state.procs pid = .granting call p ws → Reading w pid call p ws)
    (hok : Undisturbed w e) : Apart w.state e := by
  cases e with
  | run pid =>
    simp only [Apart]
    split
    · next call ws hproc =>
      have hread := hr pid _ _ _ hproc
      have hwrites : call.Writes ws := by
        have hp := hs.procs pid
        rwa [hproc] at hp
      simp only [Undisturbed, hproc] at hok
      refine ⟨?_, hok.2⟩
      rcases hwrites with rfl | hwrites
      · exact List.forall_mem_nil _
      have hne : ws ≠ [] := by
        rintro rfl
        cases call <;> cases hwrites
      have hno : call.opposite.2 ∉ w.state.tables.accounts.rolesOf call.opposite.1 := by
        rcases (After.result hread id).2 with hnil | hcrossed | hno
        · exact absurd hnil hne
        · exact absurd hcrossed (hok.1 hne)
        · exact hno
      cases call with
      | restaurantAdmin userId restaurantId =>
        obtain rfl := hwrites
        refine List.forall_mem_cons.mpr ⟨trivial, List.forall_mem_singleton.mpr ?_⟩
        exact ⟨fun he => absurd he (by decide), fun _ => hno⟩
      | rider userId =>
        obtain rfl := hwrites
        refine List.forall_mem_cons.mpr ⟨?_, List.forall_mem_singleton.mpr trivial⟩
        exact ⟨fun _ => hno, fun he => absurd he (by decide)⟩
    · trivial
  | _ => trivial

/-- One statement of a grant takes it on. -/
theorem Reading.advance {pid : Fin n} {call : Call} {p p' : Grant Unit} {ws x : List Write}
    {facts : List (Tables → Bool)} (h : Reading w pid call p ws)
    (ha : p.advance Write.apply (fun _ _ => True) w.state.tables ws 0 = some (p', x, facts))
    (hran : w'.ran pid = w.ran pid + 1) (htables : w'.state.tables = w.state.tables)
    (hsince : ∀ n r, w'.Since pid n r ↔ w.Since pid n r) : Reading w' pid call p' (ws ++ x) := by
  unfold Reading at h ⊢
  rw [htables, hran, hsince]
  exact h.step ha (Or.imp_left fun hp => (hp.advance trivial ha).2)

/-- A grant that waits, while others move. -/
theorem Reading.waits {pid : Fin n} {call : Call} {p : Grant Unit} {ws : List Write}
    (h : Reading w pid call p ws) (hran : w'.ran pid = w.ran pid)
    (hsince : w.Since pid 2 call.opposite → w'.Since pid 2 call.opposite)
    (hroles : call.opposite.2 ∈ w'.state.tables.accounts.rolesOf call.opposite.1 →
      call.opposite.2 ∈ w.state.tables.accounts.rolesOf call.opposite.1 ∨
        (2 ≤ w.ran pid → w'.Since pid 2 call.opposite)) : Reading w' pid call p ws := by
  unfold Reading at h ⊢
  rw [hran]
  refine h.waits (fun _ _ _ hb => hb.imp_right (Or.imp_left hsince)) fun htwo hb => ?_
  rcases hb with hnil | hcrossed | hno
  · exact .inl hnil
  · exact .inr (.inl (hsince hcrossed))
  · by_cases hnew : call.opposite.2 ∈ w'.state.tables.accounts.rolesOf call.opposite.1
    · exact .inr (.inl ((hroles hnew).resolve_left hno htwo))
    · exact .inr (.inr hnew)

theorem procs_set_self {pid : Fin n} {proc : Proc} : (s.set pid proc).procs pid = proc :=
  Function.update_self ..

theorem procs_set_of_ne {pid q : Fin n} {proc : Proc} (h : q ≠ pid) :
    (s.set pid proc).procs q = s.procs q := Function.update_of_ne h ..

/-- **One step of the grants in progress.** -/
theorem reading_step
    (h : ∀ pid call p ws, w.state.procs pid = .granting call p ws → Reading w pid call p ws)
    (hstep : watch.watched step w e = some w') {pid : Fin n} {call : Call} {p : Grant Unit}
    {ws : List Write} (hproc : w'.state.procs pid = .granting call p ws) :
    Reading w' pid call p ws := by
  have hcases := step_cases (Watch.step_of_watched hstep)
  generalize ht : w'.state = t at hcases
  rw [ht] at hproc
  -- a grant that waits keeps its program, and the roles that it has read unless they are granted
  have hkept : ∀ q proc, q ≠ pid → (w.state.set q proc).procs pid = .granting call p ws →
      Reading w pid call p ws :=
    fun q proc hq hproc => h pid call p ws (by rwa [← procs_set_of_ne (Ne.symm hq)])
  have hwaits : Reading w pid call p ws → watch.begins w.state e ≠ some pid →
      watch.runs e ≠ some pid →
        (call.opposite.2 ∈ t.tables.accounts.rolesOf call.opposite.1 →
          call.opposite.2 ∈ w.state.tables.accounts.rolesOf call.opposite.1 ∨
            call.opposite ∈ granted w.state e) → Reading w' pid call p ws := by
    intro hread hbegins hruns hroles
    obtain ⟨hran, hsince⟩ := Watch.waits_of_watched hstep hbegins hruns
    refine hread.waits hran (fun hc => (hsince 2 _).mpr (.inl hc)) fun hnew => ?_
    rw [ht] at hnew
    exact (hroles hnew).imp_right fun hg htwo => (hsince 2 _).mpr (.inr ⟨htwo, hg⟩)
  cases hcases with
  | @registers user a ha =>
    refine hwaits (h pid call p ws hproc) nofun nofun fun hnew => .inl ?_
    unfold Accounts.insertUser at ha
    split at ha
    · cases ha
    cases ha
    rcases mem_rolesOf_addRole.mp hnew with hold | ⟨-, hcustomer⟩
    · exact hold
    · cases call with
      | restaurantAdmin => exact absurd (show Role.rider.name = _ from hcustomer) (by decide)
      | rider => exact absurd (show Role.restaurantAdmin.name = _ from hcustomer) (by decide)
  | @starts q call' =>
    by_cases hq : q = pid
    · subst hq
      rw [procs_set_self] at hproc
      cases hproc
      unfold Reading
      rw [(Watch.begins_of_watched hstep rfl).1]
      exact after_body
    · exact hwaits (hkept q _ hq hproc) (fun hb => hq (Option.some.inj hb)) nofun .inl
  | @advances q call' p₀ p' ws₀ x facts hp₀ ha =>
    by_cases hq : q = pid
    · subst hq
      rw [procs_set_self] at hproc
      cases hproc
      obtain ⟨hran, hsince⟩ := Watch.runs_of_watched hstep nofun rfl
      exact (h q _ _ _ hp₀).advance ha hran (by rw [ht]; rfl) hsince
    · exact hwaits (hkept q _ hq hproc) nofun (fun hr => hq (Option.some.inj hr)) .inl
  | @commits q call' ws₀ hp₀ =>
    have hproc : (w.state.set q .idle).procs pid = _ := hproc
    by_cases hq : q = pid
    · subst hq
      rw [procs_set_self] at hproc
      cases hproc
    · refine hwaits (hkept q _ hq hproc) nofun (fun hr => hq (Option.some.inj hr)) fun hnew => ?_
      simp only [granted, hp₀]
      exact mem_rolesOf_applyAll hnew
  | @finds q id =>
    by_cases hq : q = pid
    · subst hq
      rw [procs_set_self] at hproc
      cases hproc
    · exact hwaits (hkept q _ hq hproc) nofun nofun .inl
  | @reads q id =>
    by_cases hq : q = pid
    · subst hq
      rw [procs_set_self] at hproc
      cases hproc
    · exact hwaits (hkept q _ hq hproc) nofun (fun hr => hq (Option.some.inj hr)) .inl
  | @issues q id roles claims hp₀ hissue =>
    have hproc : (w.state.set q .idle).procs pid = _ := hproc
    by_cases hq : q = pid
    · subst hq
      rw [procs_set_self] at hproc
      cases hproc
    · exact hwaits (hkept q _ hq hproc) nofun (fun hr => hq (Option.some.inj hr)) .inl
  | @ends e q he =>
    by_cases hq : q = pid
    · subst hq
      rw [procs_set_self] at hproc
      cases hproc
    · refine hwaits (hkept q _ hq hproc) ?_ ?_ .inl
      · rcases he with rfl | rfl <;> nofun
      · rcases he with rfl | rfl
        · exact fun hr => hq (Option.some.inj hr)
        · nofun

/-- **As long as nobody commits the other role between a grant's read of the roles and its commit,
the role classes are disjoint and in step, in the tables and in every token.** -/
theorem inStep_of_run {es : List (Event n)}
    (h : Run (watch.watched step) Undisturbed (.start .start) es w) : InStep w.state := by
  have hstart : Sound (.start : System n) := by
    refine ⟨⟨⟨fun id h => ?_, fun id => ?_, fun id => ?_⟩, List.forall_mem_nil _⟩, fun _ => trivial⟩
    · cases Accounts.mem_rolesOf.mp h.1
    · rw [Accounts.mem_rolesOf]
      exact ⟨nofun, nofun⟩
    · rw [Accounts.mem_rolesOf]
      refine ⟨fun ho => ?_, nofun⟩
      obtain ⟨o, ho, -⟩ := ho
      cases ho
  have hs : Sound w.state ∧ ∀ pid call p ws, w.state.procs pid = .granting call p ws →
      Reading w pid call p ws := by
    refine h.invariant (I := fun w => Sound w.state ∧ ∀ pid call p ws,
      w.state.procs pid = .granting call p ws → Reading w pid call p ws) ⟨hstart, fun _ _ _ _ hp => by cases hp⟩ ?_
    rintro w e w' ⟨hI, hr⟩ hok hstep
    exact ⟨sound_step hI (apart_of_undisturbed hI hr hok) (Watch.step_of_watched hstep),
      fun _ _ _ _ => reading_step hr hstep⟩
  exact hs.1.toInStep

/-! ### Runs -/

def ben : User := ⟨"usr_1", "ben@example.com", "pw"⟩

/-- Both grants have found the user; the one reads the roles when the other has committed, and finds
a courier. -/
def refused : List (Event 2) :=
  [.register ben, .grant p₀ (.rider "usr_1"), .grant p₁ (.restaurantAdmin "usr_1" "brd_1"),
    .run p₁] ++ List.replicate 5 (.run p₀) ++
      [.run p₁, .run p₁, .issue p₀ "usr_1", .run p₀, .run p₀]

theorem inStep_of_refused : ∃ w : Watched (System 2) (Fin 2) (UserId × String),
    Run (watch.watched step) Undisturbed (.start .start) refused w ∧
      Role.rider.name ∈ w.state.tables.accounts.rolesOf "usr_1" ∧ w.state.tokens.length = 1 ∧
        InStep w.state := by
  obtain ⟨w, hrun, hp⟩ : ∃ w : Watched (System 2) (Fin 2) (UserId × String),
      Run (watch.watched step) Undisturbed (.start .start) refused w ∧
        decide (Role.rider.name ∈ w.state.tables.accounts.rolesOf "usr_1" ∧
          w.state.tokens.length = 1) = true :=
    exists_run_of_execOk (by decide +kernel)
  obtain ⟨hrider, htokens⟩ := of_decide_eq_true hp
  exact ⟨w, hrun, hrider, htokens, inStep_of_run hrun⟩

/-- Both grants have read the roles before either writes. -/
def crossed : List (Event 2) :=
  [.register ben, .grant p₀ (.rider "usr_1"), .grant p₁ (.restaurantAdmin "usr_1" "brd_1"),
    .run p₀, .run p₀, .run p₁, .run p₁] ++ List.replicate 3 (.run p₀) ++ List.replicate 4 (.run p₁)

/-- **A user can come to have both roles.** -/
theorem both_roles : ¬ ∀ (n : ℕ) (es : List (Event n)) (s : System n),
    Run step Always .start es s → InStep s := by
  intro h
  obtain ⟨s, hrun, hp⟩ : ∃ s : System 2, Run step Always .start crossed s ∧
      decide (Role.rider.name ∈ s.tables.accounts.rolesOf "usr_1" ∧
        Role.restaurantAdmin.name ∈ s.tables.accounts.rolesOf "usr_1") = true :=
    exists_run_of_execOk (by decide +kernel)
  exact (h 2 crossed s hrun).tables.apart "usr_1" (of_decide_eq_true hp)

end Identity.Grants
