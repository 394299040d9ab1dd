/-
Registrations and grants, and what an access token can say.

* `register`, `grantRestaurantAdmin`, `grantRider` — the calls that write accounts;
* `Administered` — the only changes of accounts are theirs, and a brand that is granted is
  one that catalog has minted;
* `Accounts.Grows`, `Accounts.WellFormed` — no user and no role is ever taken back; every
  user holds a role;
* `Presentable` — claims that fit into headers;
* `presentable_of_run` — the claims of every token that is issued do.

What the selects of a change return is not tied to the accounts that it writes to, so that
every interleaving of changes is covered.
-/
import SmartFoodOps.Identity.Sessions

open Auth Keyed Machine Program

namespace Identity

/-! ### Identifiers -/

def hexDigits : List Char := "0123456789abcdef".toList

instance (hex : String) : Decidable (∀ c ∈ hex.toList, c ∈ hexDigits) :=
  List.decidableBAll _ hex.toList

/-- `uuid.uuid4().hex`. -/
structure Uuid where
  hex : String
  length_eq : hex.length = 32
  digits : ∀ c ∈ hex.toList, c ∈ hexDigits

def Uuid.userId (u : Uuid) : UserId := "usr_" ++ u.hex

/-- Catalog's identifiers, of brands and of branches. -/
def Uuid.brandId (u : Uuid) : String := "brd_" ++ u.hex
def Uuid.branchId (u : Uuid) : String := "rst_" ++ u.hex

/-! ### Writing accounts -/

inductive AccountError
  | unknownUser
  | grantConflict
  /-- The email or the identifier of a user is there already. -/
  | integrityError
  deriving DecidableEq, Repr

namespace Accounts

/-- `INSERT … ON CONFLICT DO NOTHING`. -/
def addRole (a : Accounts) (id : UserId) (role : String) : Accounts :=
  if (id, role) ∈ a.roles then a else { a with roles := a.roles ++ [(id, role)] }

/-- `INSERT … ON CONFLICT DO UPDATE`. -/
def setOwnerBrand (a : Accounts) (id : UserId) (brandId : String) : Accounts :=
  if a.owners.any fun o => o.1 = id then
    { a with owners := a.owners.map fun o => if o.1 = id then (id, brandId) else o }
  else { a with owners := a.owners ++ [(id, brandId)] }

def insertUser (a : Accounts) (user : User) : Except AccountError Accounts :=
  if a.users.any fun u => u.email = user.email || u.id = user.id then .error .integrityError
  else .ok { a with users := a.users ++ [user] }

end Accounts

/-- Registering an email that is there is a silent no-op. -/
def register (found : Option User) (email passwordHash : String) (u : Uuid) (a : Accounts) :
    Except AccountError Accounts :=
  match found with
  | some _ => .ok a
  | none => do
    let a ← a.insertUser ⟨u.userId, email, passwordHash⟩
    return a.addRole u.userId Role.customer.name

def grantRestaurantAdmin (found : Option User) (roles : Finset String) (previous : Option String)
    (id : UserId) (restaurantId : String) (a : Accounts) : Except AccountError Accounts :=
  match found with
  | none => .error .unknownUser
  | some _ =>
    if Role.rider.name ∈ roles then .error .grantConflict
    else if previous = some restaurantId then .ok a
    else .ok ((a.setOwnerBrand id restaurantId).addRole id Role.restaurantAdmin.name)

def grantRider (found : Option User) (roles : Finset String) (id : UserId) (a : Accounts) :
    Except AccountError Accounts :=
  match found with
  | none => .error .unknownUser
  | some _ =>
    if Role.rider.name ∈ roles then .ok a
    else if Role.restaurantAdmin.name ∈ roles then .error .grantConflict
    else .ok (a.addRole id Role.rider.name)

/-- A call that writes accounts; `found`, `roles` and `previous` are what its selects return. -/
inductive Change
  | register (found : Option User) (email passwordHash : String) (u : Uuid)
  | grantRestaurantAdmin (found : Option User) (roles : Finset String)
      (previous : Option String) (id : UserId) (restaurantId : String)
  | grantRider (found : Option User) (roles : Finset String) (id : UserId)

def Change.run : Change → Accounts → Except AccountError Accounts
  | register found email passwordHash u => Identity.register found email passwordHash u
  | grantRestaurantAdmin found roles previous id restaurantId =>
    Identity.grantRestaurantAdmin found roles previous id restaurantId
  | grantRider found roles id => Identity.grantRider found roles id

/-- What is granted is a brand or a branch of catalog: its onboarding and its events are all
that grants restaurants. -/
def Change.Minted : Change → Prop
  | grantRestaurantAdmin _ _ _ _ restaurantId =>
    ∃ u : Uuid, restaurantId = u.brandId ∨ restaurantId = u.branchId
  | _ => True

/-- Accounts change by registrations and grants. -/
def Administered {n : ℕ} (s : System n) : Event n → Prop
  | .administer accounts => ∃ change : Change, change.Minted ∧ change.run s.db.accounts = .ok accounts
  | _ => True

/-! ### What accounts keep -/

/-- A value that a header carries as it is. -/
structure Plain (v : String) : Prop where
  ne : v ≠ ""
  visible : Text.Visible v

theorem visible_hexDigits : Text.Visible "0123456789abcdef" := by decide

theorem Uuid.plain_append (u : Uuid) {kind : String} (h : Text.Visible kind) (hne : kind ≠ "") :
    Plain (kind ++ u.hex) := by
  constructor
  · intro he
    exact hne (String.append_eq_empty_iff.mp he).1
  · intro c hc
    rw [String.toList_append] at hc
    rcases List.mem_append.mp hc with hc | hc
    · exact h c hc
    · exact visible_hexDigits c (u.digits c hc)

theorem Uuid.plain_userId (u : Uuid) : Plain u.userId := u.plain_append (by decide) (by decide)

theorem plain_of_minted {v : String} (h : ∃ u : Uuid, v = u.brandId ∨ v = u.branchId) : Plain v := by
  obtain ⟨u, rfl | rfl⟩ := h
  · exact u.plain_append (by decide) (by decide)
  · exact u.plain_append (by decide) (by decide)

namespace Accounts

/-- Users and roles stay. -/
structure Grows (a b : Accounts) : Prop where
  users : ∀ u ∈ a.users, u ∈ b.users
  roles : ∀ r ∈ a.roles, r ∈ b.roles

variable {a b c : Accounts}

theorem Grows.refl (a : Accounts) : a.Grows a := ⟨fun _ h => h, fun _ h => h⟩

theorem Grows.trans (h : a.Grows b) (h' : b.Grows c) : a.Grows c :=
  ⟨fun u hu => h'.users u (h.users u hu), fun r hr => h'.roles r (h.roles r hr)⟩

structure WellFormed (a : Accounts) : Prop where
  users : ∀ u ∈ a.users, Plain u.id ∧ ∃ r ∈ a.roles, r.1 = u.id
  roles : ∀ r ∈ a.roles, r.2 ∈ roleNames
  owners : ∀ o ∈ a.owners, Plain o.2

theorem mem_rolesOf {id : UserId} {role : String} : role ∈ a.rolesOf id ↔ (id, role) ∈ a.roles := by
  simp only [rolesOf, List.mem_toFinset, List.mem_map, List.mem_filter, decide_eq_true_eq]
  constructor
  · rintro ⟨r, ⟨hr, rfl⟩, rfl⟩
    exact hr
  · exact fun h => ⟨_, ⟨h, rfl⟩, rfl⟩

theorem WellFormed.rolesOf_nonempty (h : a.WellFormed) {u : User} (hu : u ∈ a.users) :
    (a.rolesOf u.id).Nonempty := by
  obtain ⟨-, ⟨id, role⟩, hr, rfl⟩ := h.users u hu
  exact ⟨role, mem_rolesOf.mpr hr⟩

theorem WellFormed.plain_ownerBrand (h : a.WellFormed) {id : UserId} {v : String}
    (hv : a.ownerBrand id = some v) : Plain v := by
  obtain ⟨o, ho, rfl⟩ := Option.map_eq_some_iff.mp hv
  exact h.owners o (List.mem_of_find?_eq_some ho)

/-! #### One write -/

theorem mem_addRole {id : UserId} {role : String} {r : UserId × String} :
    r ∈ (a.addRole id role).roles ↔ r ∈ a.roles ∨ r = (id, role) := by
  unfold addRole
  split
  · next hmem =>
    refine ⟨.inl, fun h => h.elim (fun h => h) ?_⟩
    rintro rfl
    exact hmem
  · simp

theorem users_addRole (id : UserId) (role : String) : (a.addRole id role).users = a.users := by
  unfold addRole
  split <;> rfl

theorem owners_addRole (id : UserId) (role : String) : (a.addRole id role).owners = a.owners := by
  unfold addRole
  split <;> rfl

theorem grows_addRole (id : UserId) (role : String) : a.Grows (a.addRole id role) where
  users u hu := by rwa [users_addRole]
  roles r hr := mem_addRole.mpr (.inl hr)

theorem WellFormed.addRole (h : a.WellFormed) (id : UserId) {role : String}
    (hrole : role ∈ roleNames) : (a.addRole id role).WellFormed where
  users u hu := by
    rw [users_addRole] at hu
    obtain ⟨hid, r, hr, hr'⟩ := h.users u hu
    exact ⟨hid, r, mem_addRole.mpr (.inl hr), hr'⟩
  roles r hr := by
    rcases mem_addRole.mp hr with hr | rfl
    · exact h.roles r hr
    · exact hrole
  owners o ho := by
    rw [owners_addRole] at ho
    exact h.owners o ho

theorem setOwnerBrand_eq (id : UserId) (brandId : String) : ∃ owners,
    a.setOwnerBrand id brandId = { a with owners := owners } ∧
      ∀ o ∈ owners, o ∈ a.owners ∨ o = (id, brandId) := by
  unfold setOwnerBrand
  split
  · refine ⟨_, rfl, fun o ho => ?_⟩
    obtain ⟨o', ho', rfl⟩ := List.mem_map.mp ho
    split
    · exact .inr rfl
    · exact .inl ho'
  · refine ⟨_, rfl, fun o ho => ?_⟩
    rcases List.mem_append.mp ho with ho | ho
    · exact .inl ho
    · exact .inr (List.mem_singleton.mp ho)

/-- A new user, with a role at once. -/
theorem WellFormed.insert (h : a.WellFormed) {u : User} (hu : Plain u.id) {role : String}
    (hrole : role ∈ roleNames) :
    ({ a with users := a.users ++ [u] } : Accounts).addRole u.id role |>.WellFormed where
  users v hv := by
    rw [users_addRole] at hv
    rcases List.mem_append.mp hv with hv | hv
    · obtain ⟨hid, r, hr, hr'⟩ := h.users v hv
      exact ⟨hid, r, mem_addRole.mpr (.inl hr), hr'⟩
    · obtain rfl := List.mem_singleton.mp hv
      exact ⟨hu, _, mem_addRole.mpr (.inr rfl), rfl⟩
  roles r hr := by
    rcases mem_addRole.mp hr with hr | rfl
    · exact h.roles r hr
    · exact hrole
  owners o ho := by
    rw [owners_addRole] at ho
    exact h.owners o ho

end Accounts

open Accounts

/-- What a call that has not failed has done. -/
inductive Change.Does (a : Accounts) : Change → Accounts → Prop
  | nothing {change : Change} : Does a change a
  | registers {found : Option User} {email passwordHash : String} {u : Uuid} :
      Does a (.register found email passwordHash u)
        (({ a with users := a.users ++ [⟨u.userId, email, passwordHash⟩] } : Accounts).addRole
          u.userId Role.customer.name)
  | grantsAdmin {found : Option User} {roles : Finset String} {previous : Option String}
      {id : UserId} {restaurantId : String} :
      Does a (.grantRestaurantAdmin found roles previous id restaurantId)
        ((a.setOwnerBrand id restaurantId).addRole id Role.restaurantAdmin.name)
  | grantsRider {found : Option User} {roles : Finset String} {id : UserId} :
      Does a (.grantRider found roles id) (a.addRole id Role.rider.name)

theorem does_of_run {change : Change} {a b : Accounts} (h : change.run a = .ok b) :
    change.Does a b := by
  cases change with
  | register found email passwordHash u =>
    simp only [Change.run, register] at h
    split at h
    · cases h
      exact .nothing
    · unfold insertUser at h
      split at h <;> cases h
      exact .registers
  | grantRestaurantAdmin found roles previous id restaurantId =>
    simp only [Change.run, grantRestaurantAdmin] at h
    split at h
    · cases h
    split at h
    · cases h
    split at h <;> cases h
    · exact .nothing
    · exact .grantsAdmin
  | grantRider found roles id =>
    simp only [Change.run, grantRider] at h
    split at h
    · cases h
    split at h
    · cases h
      exact .nothing
    split at h <;> cases h
    exact .grantsRider

/-- **A change keeps users and roles, and keeps accounts well formed.** -/
theorem change_run {change : Change} {a b : Accounts} (hminted : change.Minted)
    (ha : a.WellFormed) (h : change.run a = .ok b) : a.Grows b ∧ b.WellFormed := by
  cases does_of_run h with
  | nothing => exact ⟨.refl a, ha⟩
  | @registers found email passwordHash u =>
    have hinsert : a.Grows { a with users := a.users ++ [⟨u.userId, email, passwordHash⟩] } :=
      ⟨fun v hv => List.mem_append_left _ hv, fun r hr => hr⟩
    exact ⟨hinsert.trans (grows_addRole _ _), ha.insert u.plain_userId (by decide)⟩
  | @grantsAdmin found roles previous id restaurantId =>
    obtain ⟨owners, heq, howners⟩ := @setOwnerBrand_eq a id restaurantId
    have hset : (a.setOwnerBrand id restaurantId).WellFormed := by
      rw [heq]
      refine ⟨ha.users, ha.roles, fun o ho => ?_⟩
      rcases howners o ho with ho | rfl
      · exact ha.owners o ho
      · exact plain_of_minted hminted
    refine ⟨Grows.trans ?_ (grows_addRole _ _), hset.addRole id (by decide)⟩
    rw [heq]
    exact ⟨fun _ hu => hu, fun _ hr => hr⟩
  | grantsRider => exact ⟨grows_addRole _ _, ha.addRole _ (by decide)⟩

/-! ### What a token says -/

/-- Claims that fit into headers. -/
structure Presentable (claims : Claims) : Prop where
  sub : Plain claims.sub
  roles : ∃ held : Finset String, held.Nonempty ∧ held ⊆ roleNames ∧
    claims.roles = held.sort (· ≤ ·)
  restaurantId : ∀ v, claims.restaurantId = some v → Plain v
  riderId : ∀ v, claims.riderId = some v → Plain v

section

variable {n : ℕ} {c : Config} {purposeOf : ℕ → Purpose} {s t : System n} {e : Event n}

/-- While accounts grow, the program can only return a token with presentable claims. -/
abbrev Presenting (c : Config) (purposeOf : ℕ → Purpose) (p : Session TokenPair) (db : Db)
    (ws : List Write) : Prop :=
  Beside (Drawn c purposeOf) Write.apply (fun db db' => db.accounts.Grows db'.accounts)
    (fun db => db.accounts.WellFormed) (fun _ _ _ => True) (fun _ => True) p
    (fun _ pair _ => Presentable pair.accessToken) db ws

theorem accounts_applyAll (ws : List Write) (db : Db) :
    (applyAll Write.apply ws db).accounts = db.accounts := by
  induction ws generalizing db with
  | nil => rfl
  | cons w ws ih =>
    have hw : (w.apply db).accounts = db.accounts := by cases w <;> rfl
    exact (ih _).trans hw

theorem beside_select {β : Type} [DecidableEq β] {q : Db → β} {Q : Db → β → List Write → Prop}
    {db : Db} {ws : List Write}
    (h : ∀ db', db.accounts.Grows db'.accounts → db'.accounts.WellFormed → ∀ db'',
      db'.accounts.Grows db''.accounts → db''.accounts.WellFormed →
        Q db'' (q (applyAll Write.apply ws db')) ws) :
    Beside (Drawn c purposeOf) Write.apply (fun db db' => db.accounts.Grows db'.accounts)
      (fun db => db.accounts.WellFormed) (fun _ _ _ => True) (fun _ => True) (select q) Q db ws := by
  intro db' hg hI b w hq
  cases hq
  rw [List.append_nil]
  exact ⟨trivial, h db' hg hI⟩

/-- Read, and go on from what has been read. -/
theorem presenting_select {β : Type} [DecidableEq β] {q : Db → β} {f : β → Session TokenPair}
    {db : Db} {ws : List Write} (hI : db.accounts.WellFormed)
    (h : ∀ db', db.accounts.Grows db'.accounts → db'.accounts.WellFormed → ∀ db'',
      db'.accounts.Grows db''.accounts → db''.accounts.WellFormed →
        Presenting c purposeOf (f (q (applyAll Write.apply ws db'))) db'' ws) :
    Presenting c purposeOf (select q >>= f) db ws :=
  beside_bind (fun db => Grows.refl db.accounts) (beside_select h) hI

/-- The last statement, whatever it writes. -/
theorem presenting_execute {s : Db → Option (Unit × List Write)} {pair : TokenPair} {db : Db}
    {ws : List Write} (hI : db.accounts.WellFormed) (hpair : Presentable pair.accessToken) :
    Presenting c purposeOf (Prog.execute s >>= fun _ => .ret pair) db ws :=
  beside_bind (fun db => Grows.refl db.accounts)
    (fun _ _ _ _ _ _ => ⟨trivial, fun _ _ _ _ _ _ => hpair⟩) hI

theorem presentable_issue {roles : Finset String} {user : User} {brand : Option String}
    {access : Claims} (hsub : Plain user.id) (hroles : roles.Nonempty)
    (hbrand : ∀ v, brand = some v → Plain v)
    (h : issue user.id roles brand (if Role.rider.name ∈ roles then some user.id else none) =
      some access) : Presentable access := by
  unfold issue at h
  split at h
  · next hsubset =>
    cases h
    refine ⟨hsub, ⟨roles, hroles, hsubset, rfl⟩, hbrand, fun v hv => ?_⟩
    simp only at hv
    split at hv
    · cases hv
      exact hsub
    · cases hv
  · cases h

theorem presenting_issuePair {number : ℕ} {user : User} {id : Option SessionId} {db : Db}
    (hI : db.accounts.WellFormed) (huser : user ∈ db.accounts.users) :
    Presenting c purposeOf (issuePair c number user id) db [] := by
  refine presenting_select hI fun db₁ hg₁ hI₁ db₂ hg₂ hI₂ => ?_
  refine presenting_select hI₂ fun db₃ hg₃ hI₃ db₄ hg₄ hI₄ => ?_
  have huser₁ : user ∈ db₁.accounts.users := hg₁.users user huser
  split
  · trivial
  next access hissue =>
  have hpresentable : Presentable access :=
    presentable_issue (hI₁.users user huser₁).1 (hI₁.rolesOf_nonempty huser₁)
      (fun v hv => hI₃.plain_ownerBrand hv) hissue
  intro token _ now _
  cases id with
  | none =>
    intro sessionId _
    exact presenting_execute hI₄ hpresentable
  | some id => exact presenting_execute hI₄ hpresentable

theorem presenting_body {number : ℕ} {call : Call} {db : Db} (hI : db.accounts.WellFormed) :
    Presenting c purposeOf (call.body c number) db [] := by
  cases call with
  | login email password =>
    refine presenting_select hI fun db₁ _ hI₁ db₂ hg₂ hI₂ => ?_
    split
    · trivial
    next user huser =>
    split
    · exact presenting_issuePair hI₂ (hg₂.users user (List.mem_of_find?_eq_some huser))
    · trivial
  | refresh token =>
    refine presenting_select hI fun db₁ _ hI₁ db₂ _ hI₂ => ?_
    split
    · trivial
    next row _ =>
    intro now _
    show Presenting c purposeOf (if _ then _ else _) _ _
    split
    · trivial
    refine presenting_select hI₂ fun db₃ _ hI₃ db₄ hg₄ hI₄ => ?_
    split
    · trivial
    next user huser =>
    exact presenting_issuePair hI₄ (hg₄.users user (List.mem_of_find?_eq_some huser))

/-! ### Runs -/

/-- What holds of a state. -/
structure Presented (c : Config) (purposeOf : ℕ → Purpose) (s : System n) : Prop where
  accounts : s.db.accounts.WellFormed
  procs : ∀ pid, match s.procs pid with
    | .idle => True
    | .running _ _ p ws => Presenting c purposeOf p s.db ws
  answers : ∀ a ∈ s.answers, Presentable a.pair.accessToken

theorem presented_step (hI : Presented c purposeOf s) (hok : Administered s e)
    (h : step c purposeOf s e = some t) : Presented c purposeOf t := by
  have htrans : ∀ a b c : Db, a.accounts.Grows b.accounts → b.accounts.Grows c.accounts →
      a.accounts.Grows c.accounts := fun _ _ _ h h' => h.trans h'
  -- accounts may have grown, and one process has moved
  have hset : ∀ (db : Db) (pid : Fin n) (proc : Proc), s.db.accounts.Grows db.accounts →
      (match proc with
        | .idle => True
        | .running _ _ p ws => Presenting c purposeOf p db ws) →
        ∀ q, match Function.update s.procs pid proc q with
          | .idle => True
          | .running _ _ p ws => Presenting c purposeOf p db ws := by
    intro db pid proc hg hproc q
    by_cases hq : q = pid
    · rw [hq, Function.update_self]
      exact hproc
    · rw [Function.update_of_ne hq]
      have hp := hI.procs q
      cases hs : s.procs q with
      | idle => trivial
      | running number call p ws =>
        rw [hs] at hp
        exact hp.moved htrans hg
  cases step_cases h with
  | start hidle => exact ⟨hI.accounts, hset _ _ _ (.refl _) (presenting_body hI.accounts), hI.answers⟩
  | @advances pid u number call p p' ws w facts hproc ha =>
    have hp := hI.procs pid
    rw [hproc] at hp
    exact ⟨hI.accounts, hset _ _ _ (.refl _) (Beside.advance htrans hp (.refl _) hI.accounts ha).2,
      hI.answers⟩
  | @answers pid u number call pair ws hproc =>
    have hp := hI.procs pid
    rw [hproc] at hp
    have haccounts : (applyAll Write.apply ws s.db).accounts = s.db.accounts :=
      accounts_applyAll ws s.db
    refine ⟨?_, hset _ _ _ ?_ trivial, List.forall_mem_cons.mpr ⟨?_, hI.answers⟩⟩
    · show (applyAll Write.apply ws s.db).accounts.WellFormed
      rw [haccounts]
      exact hI.accounts
    · rw [haccounts]
      exact .refl _
    · exact hp s.db (.refl _) hI.accounts
  | ends => exact ⟨hI.accounts, hset _ _ _ (.refl _) trivial, hI.answers⟩
  | @administers accounts =>
    obtain ⟨change, hminted, hchange⟩ := hok
    obtain ⟨hg, hwell⟩ := change_run hminted hI.accounts hchange
    refine ⟨hwell, fun q => ?_, hI.answers⟩
    have hp := hI.procs q
    simp only
    cases hs : s.procs q with
    | idle => trivial
    | running number call p ws =>
      rw [hs] at hp
      exact Beside.moved htrans hp hg

/-- No accounts yet. -/
def Accounts.empty : Accounts := ⟨[], [], []⟩

/-- **Every token that is issued has presentable claims.** -/
theorem presentable_of_run {es : List (Event n)}
    (h : Run (step c purposeOf) Administered (.start .empty) es s) :
    ∀ a ∈ s.answers, Presentable a.pair.accessToken := by
  have hstart : Presented c purposeOf (.start .empty : System n) :=
    ⟨⟨nofun, nofun, nofun⟩, fun _ => trivial, nofun⟩
  have hs : Presented c purposeOf s := h.invariant (I := Presented c purposeOf) hstart
    fun _ _ _ hI hok hs => presented_step hI hok hs
  exact hs.answers

end

end Identity
