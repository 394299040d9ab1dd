/-
IdentityService: login and refresh, statement by statement.

* `Db` — users, their roles and brands, and the refresh tokens, one row for each login;
* `login`, `refresh`, `issuePair` — as programs of statements; what they draw is the time,
  a session's identifier and a refresh token;
* `System`, `step` — calls in progress, READ COMMITTED: a write waits for a transaction in
  progress that has written the same row or the same hash;
* `Step`, `step_cases` — what a step can do.

Commit and answer are one step.  Columns that no call reads are left out.
-/
import SmartFoodOps.Auth.Context
import SmartFoodOps.Lib.Keyed
import SmartFoodOps.Lib.Machine
import SmartFoodOps.Lib.Program
import Mathlib.Data.Fintype.Basic

open Auth Keyed Program

namespace Identity

/-! ### Tables -/

abbrev UserId := String
abbrev SessionId := ℕ

/-- A refresh token, and what is stored of it. -/
abbrev RefreshToken := ℕ
abbrev Digest := ℕ

structure User where
  id : UserId
  email : String
  passwordHash : String
  deriving DecidableEq

/-- `users`, `user_roles` and `restaurant_owners`. -/
structure Accounts where
  users : List User
  roles : List (UserId × String)
  owners : List (UserId × String)
  deriving DecidableEq

namespace Accounts

variable (a : Accounts)

def userByEmail (email : String) : Option User := a.users.find? fun u => u.email = email

def userById (id : UserId) : Option User := a.users.find? fun u => u.id = id

def rolesOf (id : UserId) : Finset String :=
  ((a.roles.filter fun r => r.1 = id).map (·.2)).toFinset

def ownerBrand (id : UserId) : Option String := (a.owners.find? fun o => o.1 = id).map (·.2)

end Accounts

structure SessionRow where
  id : SessionId
  userId : UserId
  tokenSha256 : Digest
  expiresAt : ℕ
  deriving DecidableEq

structure Db where
  accounts : Accounts
  refreshTokens : Table SessionRow SessionId SessionRow.id

/-- The hash is unique. -/
def Db.refreshByHash (db : Db) (h : Digest) : Option SessionRow :=
  db.refreshTokens.rows.find? fun row => row.tokenSha256 = h

inductive Write
  | open (row : SessionRow)
  | rotate (id : SessionId) (tokenSha256 : Digest) (expiresAt : ℕ)
  deriving DecidableEq

namespace Write

def session : Write → SessionId
  | .open row => row.id
  | rotate id _ _ => id

def tokenSha256 : Write → Digest
  | .open row => row.tokenSha256
  | rotate _ h _ => h

def apply : Write → Db → Db
  | .open row, db => { db with refreshTokens := db.refreshTokens.put row }
  | rotate id h e, db =>
    { db with
      refreshTokens := db.refreshTokens.modify id
        (fun row => { row with tokenSha256 := h, expiresAt := e }) (fun _ => rfl) }

end Write

/-! ### The calls -/

inductive IdentityError
  | invalidCredentials
  | invalidRefreshToken
  /-- A role that is not in the vocabulary. -/
  | valueError
  deriving DecidableEq, Repr

/-- What a value is drawn for; the calls are numbered. -/
inductive Purpose
  | now
  | session (call : ℕ)
  | token (call : ℕ)
  deriving DecidableEq, Repr

structure Config where
  /-- sha256 -/
  hash : RefreshToken → Digest
  verifyPassword : String → String → Bool
  accessTtlSeconds : ℕ
  refreshTtl : ℕ

/-- Neither a uuid4 nor the hash of a new token is ever drawn twice, so what it is drawn
for is a function of it. -/
def Drawn (c : Config) (purposeOf : ℕ → Purpose) : Purpose → ℕ → Prop
  | .now, _ => True
  | .session k, u => purposeOf u = .session k
  | .token k, u => purposeOf (c.hash u) = .token k

instance (c : Config) (purposeOf : ℕ → Purpose) (p : Purpose) (u : ℕ) :
    Decidable (Drawn c purposeOf p u) := by
  unfold Drawn
  split <;> infer_instance

abbrev Session := Prog Db Write IdentityError Purpose

abbrev select {α : Type} [DecidableEq α] (q : Db → α) : Session α := Prog.select q

structure TokenPair where
  accessToken : Claims
  refreshToken : RefreshToken
  expiresIn : ℕ
  deriving DecidableEq

/-- A login: one new row. -/
def openSession (call : ℕ) (userId : UserId) (tokenSha256 : Digest) (expiresAt : ℕ) :
    Session Unit := do
  let id ← .draw (.session call) .ret
  Prog.execute fun db =>
    if db.refreshTokens.find id = none ∧ ∀ row ∈ db.refreshTokens.rows, row.tokenSha256 ≠ tokenSha256
    then some ((), [.open ⟨id, userId, tokenSha256, expiresAt⟩])
    else none

/-- A refresh: overwrite the live token on the row. -/
def rotateSession (id : SessionId) (tokenSha256 : Digest) (expiresAt : ℕ) : Session Unit :=
  Prog.execute fun db =>
    if ∀ row ∈ db.refreshTokens.rows, row.id ≠ id → row.tokenSha256 ≠ tokenSha256
    then some ((), [.rotate id tokenSha256 expiresAt])
    else none

/-- `none` opens a session, `some` rotates that one. -/
def issuePair (c : Config) (call : ℕ) (user : User) (sessionId : Option SessionId) :
    Session TokenPair := do
  let roles ← select fun db => db.accounts.rolesOf user.id
  let brand ← select fun db => db.accounts.ownerBrand user.id
  match issue user.id roles brand (if Role.rider.name ∈ roles then some user.id else none) with
  | none => .fail .valueError
  | some access => do
    let token ← .draw (.token call) .ret
    let now ← .draw .now .ret
    match sessionId with
    | none => openSession call user.id (c.hash token) (now + c.refreshTtl)
    | some id => rotateSession id (c.hash token) (now + c.refreshTtl)
    return ⟨access, token, c.accessTtlSeconds⟩

def login (c : Config) (call : ℕ) (email password : String) : Session TokenPair := do
  match ← select fun db => db.accounts.userByEmail email with
  | none => .fail .invalidCredentials
  | some user =>
    if c.verifyPassword user.passwordHash password then issuePair c call user none
    else .fail .invalidCredentials

def refresh (c : Config) (call : ℕ) (refreshToken : RefreshToken) : Session TokenPair := do
  match ← select fun db => db.refreshByHash (c.hash refreshToken) with
  | none => .fail .invalidRefreshToken
  | some row => do
    let now ← .draw .now .ret
    if row.expiresAt < now then .fail .invalidRefreshToken
    else do
      match ← select fun db => db.accounts.userById row.userId with
      | none => .fail .invalidRefreshToken
      | some user => issuePair c call user (some row.id)

inductive Call
  | login (email password : String)
  | refresh (refreshToken : RefreshToken)
  deriving DecidableEq

def Call.body (c : Config) (number : ℕ) : Call → Session TokenPair
  | login email password => Identity.login c number email password
  | refresh t => Identity.refresh c number t

/-- The token that a call wants to redeem. -/
def Call.presented : Call → Option RefreshToken
  | login _ _ => none
  | refresh t => some t

/-! ### Calls in progress -/

inductive Proc : Type 1
  | idle
  | running (number : ℕ) (call : Call) (p : Session TokenPair) (writes : List Write)

def Proc.writes : Proc → List Write
  | idle => []
  | running _ _ _ ws => ws

/-- A call that has succeeded, and the session that it has opened or rotated. -/
structure Answer where
  number : ℕ
  call : Call
  session : Option SessionId
  pair : TokenPair
  deriving DecidableEq

structure System (n : ℕ) : Type 1 where
  db : Db
  procs : Fin n → Proc
  /-- Newest first. -/
  answers : List Answer
  /-- The number of the next call. -/
  calls : ℕ

inductive Event (n : ℕ)
  | start (pid : Fin n) (call : Call)
  /-- The next statement; `drawn` is the value that it draws, if it draws one. -/
  | run (pid : Fin n) (drawn : ℕ)
  /-- The connection is lost. -/
  | abort (pid : Fin n)
  /-- Registrations and grants. -/
  | administer (accounts : Accounts)
  deriving DecidableEq

variable {n : ℕ}

namespace System

/-- Nobody has logged in. -/
def start (accounts : Accounts) : System n := ⟨⟨accounts, ⟨[], .nil⟩⟩, fun _ => .idle, [], 0⟩

def set (s : System n) (pid : Fin n) (proc : Proc) : System n :=
  { s with procs := Function.update s.procs pid proc }

/-- No transaction in progress has written the row or the hash. -/
def Free (s : System n) (pid : Fin n) (ws : List Write) : Prop :=
  ∀ q, q ≠ pid → ∀ w ∈ ws, ∀ w' ∈ (s.procs q).writes,
    w.session ≠ w'.session ∧ w.tokenSha256 ≠ w'.tokenSha256

instance (s : System n) (pid : Fin n) (ws : List Write) : Decidable (s.Free pid ws) :=
  inferInstanceAs (Decidable (∀ q, q ≠ pid → ∀ w ∈ ws, ∀ w' ∈ _, _))

end System

section

variable (c : Config) (purposeOf : ℕ → Purpose)

/-- The next step of a call. -/
def runProc (s : System n) (pid : Fin n) (drawn : ℕ) : Proc → Option (System n)
  | .idle => none
  | .running number call (.ret pair) ws =>
    some { s.set pid .idle with
      db := applyAll Write.apply ws s.db
      answers := ⟨number, call, ws.head?.map Write.session, pair⟩ :: s.answers }
  | .running _ _ (.fail _) _ => some (s.set pid .idle)
  | .running number call p ws =>
    (p.advance Write.apply (Drawn c purposeOf) s.db ws drawn).bind fun (p', w, _) =>
      if s.Free pid w then some (s.set pid (.running number call p' (ws ++ w))) else none

def step (s : System n) : Event n → Option (System n)
  | .start pid call =>
    match s.procs pid with
    | .idle =>
      some { s.set pid (.running s.calls call (call.body c s.calls) []) with calls := s.calls + 1 }
    | _ => none
  | .run pid drawn => runProc c purposeOf s pid drawn (s.procs pid)
  | .abort pid => some (s.set pid .idle)
  | .administer accounts => some { s with db := { s.db with accounts := accounts } }

/-- What a step can do. -/
inductive Step (s : System n) : Event n → System n → Prop
  | start {pid : Fin n} {call : Call} : s.procs pid = .idle → Step s (.start pid call)
      { s.set pid (.running s.calls call (call.body c s.calls) []) with calls := s.calls + 1 }
  | advances {pid : Fin n} {u number : ℕ} {call : Call} {p p' : Session TokenPair}
      {ws w : List Write} {facts : List (Db → Bool)} :
      s.procs pid = .running number call p ws →
        p.advance Write.apply (Drawn c purposeOf) s.db ws u = some (p', w, facts) →
          Step s (.run pid u) (s.set pid (.running number call p' (ws ++ w)))
  | answers {pid : Fin n} {u number : ℕ} {call : Call} {pair : TokenPair} {ws : List Write} :
      s.procs pid = .running number call (.ret pair) ws → Step s (.run pid u)
        { s.set pid .idle with
          db := applyAll Write.apply ws s.db
          answers := ⟨number, call, ws.head?.map Write.session, pair⟩ :: s.answers }
  /-- It has raised, or its connection is lost. -/
  | ends {pid : Fin n} {e : Event n} : e = .abort pid ∨ (∃ u, e = .run pid u) →
      Step s e (s.set pid .idle)
  | administers {accounts : Accounts} :
      Step s (.administer accounts) { s with db := { s.db with accounts := accounts } }

variable {c purposeOf}

theorem runProc_running {s t : System n} {pid : Fin n} {u number : ℕ} {call : Call}
    {p : Session TokenPair} {ws : List Write} (hproc : s.procs pid = .running number call p ws)
    (h : runProc c purposeOf s pid u (.running number call p ws) = some t) :
    Step c purposeOf s (.run pid u) t := by
  have hstatement : (p.advance Write.apply (Drawn c purposeOf) s.db ws u).bind
      (fun (p', w, _) =>
        if s.Free pid w then some (s.set pid (.running number call p' (ws ++ w))) else none) =
          some t → Step c purposeOf s (.run pid u) t := by
    intro h
    obtain ⟨⟨p', w, facts⟩, ha, h⟩ := Option.bind_eq_some_iff.mp h
    simp only at h
    split at h
    · cases h
      exact .advances hproc ha
    · cases h
  cases p with
  | ret pair =>
    cases h
    exact .answers hproc
  | fail e =>
    cases h
    exact .ends (.inr ⟨u, rfl⟩)
  | stmt q k => exact hstatement h
  | draw purpose k => exact hstatement h

theorem step_cases {s t : System n} {e : Event n} (h : step c purposeOf s e = some t) :
    Step c purposeOf s e t := by
  cases e with
  | start pid call =>
    simp only [step] at h
    split at h
    · next hidle =>
      cases h
      exact .start hidle
    · cases h
  | run pid u =>
    simp only [step] at h
    cases hproc : s.procs pid with
    | idle =>
      rw [hproc] at h
      cases h
    | running number call p ws =>
      rw [hproc] at h
      exact runProc_running hproc h
  | abort pid =>
    cases h
    exact .ends (.inl rfl)
  | administer accounts =>
    cases h
    exact .administers

end

end Identity
