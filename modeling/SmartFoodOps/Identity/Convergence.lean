/-
The grants that catalog's facts are owed, from a compacted topic.

* `Fact`, `Fact.grantee`, `Fact.scope` — an event of catalog, whom it makes an admin, and of what;
* `Job`, `Pc` — a grant in progress, statement by statement: the handler's, or an onboarding's;
* `System`, `step` — facts are committed, published any number of times and compacted away; grants
  begin, go on, fail and are parked, while users register and become riders;
* `Contract` — what the facts of catalog have in common;
* `converged_of_run` — nobody is an admin whom no fact names, and behind the last record of a
  restaurant its owner is one, although the onboarding may have failed and the record of its creation
  may be gone.

What a call of `grant_rider` or of `register` reads is not tied to the accounts, so that they come
between the statements of a grant in every way.
-/
import SmartFoodOps.Identity.Grants

open Auth Machine
open Identity.Grants (Owns owns_iff owns_setOwnerBrand mem_rolesOf_addRole)

namespace Identity.Convergence

/-! ### Facts -/

/-- What the handler reads of an event of `catalog.changes`. -/
structure Fact where
  eventId : String
  aggregateType : String
  aggregateId : String
  ownerUserId : Option UserId
  brandId : Option String
  deriving DecidableEq

/-- An empty text counts for nothing. -/
def truthy (v : Option String) : Option String := v.filter fun t => t ≠ ""

def Fact.grantee (f : Fact) : Option UserId :=
  if f.aggregateType = "restaurant" then truthy f.ownerUserId else none

/-- The brand, if the payload names one, else the aggregate. -/
def Fact.scope (f : Fact) : String := (truthy f.brandId).getD f.aggregateId

/-! ### The system -/

/-- The next statement of a grant, with what its selects have returned. -/
inductive Pc
  /-- The select of `processed_events`. -/
  | seen
  | user
  | roles (found : Option User)
  | brand (found : Option User) (roles : Finset String)
  | write (found : Option User) (roles : Finset String) (previous : Option String)
  /-- The insert into `processed_events`. -/
  | mark
  deriving DecidableEq

structure Job where
  /-- The offset that is handled; an onboarding has none. -/
  offset : Option ℕ
  fact : Fact
  user : UserId
  pc : Pc
  deriving DecidableEq

structure System where
  accounts : Accounts
  /-- What catalog has committed. -/
  facts : List Fact
  /-- The topic; a record that is compacted away is `false`. -/
  log : List (Fact × Bool)
  /-- The ids in `processed_events`. -/
  processed : List String
  jobs : List Job
  /-- The offsets whose handler has returned. -/
  handled : List ℕ
  parked : List ℕ
  /-- The offset that the group has committed. -/
  committed : ℕ
  deriving DecidableEq

def System.start : System := ⟨⟨[], [], []⟩, [], [], [], [], [], [], 0⟩

inductive Label
  | register (found : Option User) (email passwordHash : String) (u : Uuid)
  | grantRider (found : Option User) (roles : Finset String) (id : UserId)
  | commit (f : Fact)
  /-- A fact gets to the topic, perhaps once more. -/
  | publish (f : Fact)
  | compact (o : ℕ)
  /-- The synchronous grant, of an onboarding or of its repair. -/
  | onboard (f : Fact)
  /-- A consumer takes up a record, perhaps one that another one has taken up. -/
  | fetch (o : ℕ)
  | work (k : ℕ)
  | fail (k : ℕ)
  | park (o : ℕ)
  | acknowledge (o : ℕ)

def recordAt (log : List (Fact × Bool)) (o : ℕ) : Option Fact := log[o]?.map Prod.fst

/-- A later record has the key of the record. -/
def Superseded (log : List (Fact × Bool)) (o : ℕ) (key : String) : Prop :=
  ∃ r ∈ log.drop (o + 1), r.1.aggregateId = key

instance (log : List (Fact × Bool)) (o : ℕ) (key : String) : Decidable (Superseded log o key) :=
  inferInstanceAs (Decidable (∃ r ∈ log.drop (o + 1), _))

/-- Everything below the offset that is still there has been handled or parked. -/
def System.Passed (s : System) (o : ℕ) : Prop :=
  o ≤ s.log.length ∧ ∀ i < o, s.log[i]?.any Prod.snd → i ∈ s.handled ∨ i ∈ s.parked

instance (s : System) (o : ℕ) : Decidable (s.Passed o) :=
  inferInstanceAs (Decidable (_ ∧ ∀ i < o, _))

def System.change (s : System) (c : Change) : Option System :=
  match c.run s.accounts with
  | .ok a => some { s with accounts := a }
  | .error _ => none

def System.to (s : System) (k : ℕ) (j : Job) (pc : Pc) : System :=
  { s with jobs := s.jobs.set k { j with pc := pc } }

/-- The job is over. -/
def System.done (s : System) (k : ℕ) (j : Job) : System :=
  { s with jobs := s.jobs.eraseIdx k, handled := j.offset.toList ++ s.handled }

/-- A grant that is refused changes nothing. -/
def System.grant (s : System) (j : Job) (found : Option User) (roles : Finset String)
    (previous : Option String) : System :=
  (s.change (.grantRestaurantAdmin found roles previous j.user j.fact.scope)).getD s

def System.work (s : System) (k : ℕ) (j : Job) : System :=
  match j.pc with
  | .seen => if j.fact.eventId ∈ s.processed then s.done k j else s.to k j .user
  | .user => s.to k j (.roles (s.accounts.userById j.user))
  | .roles found => s.to k j (.brand found (s.accounts.rolesOf j.user))
  | .brand found roles => s.to k j (.write found roles (s.accounts.ownerBrand j.user))
  | .write found roles previous =>
    if j.offset = none then (s.grant j found roles previous).done k j
    else (s.grant j found roles previous).to k j .mark
  | .mark => { s with processed := j.fact.eventId :: s.processed }.done k j

def System.begin (s : System) (offset : Option ℕ) (f : Fact) (pc : Pc) : System :=
  match f.grantee with
  | some u => { s with jobs := ⟨offset, f, u, pc⟩ :: s.jobs }
  | none => { s with handled := offset.toList ++ s.handled }

def step (s : System) : Label → Option System
  | .register found email passwordHash u => s.change (.register found email passwordHash u)
  | .grantRider found roles id => s.change (.grantRider found roles id)
  | .commit f => some { s with facts := s.facts ++ [f] }
  | .publish f => if f ∈ s.facts then some { s with log := s.log ++ [(f, true)] } else none
  | .compact o =>
    match recordAt s.log o with
    | some f =>
      if Superseded s.log o f.aggregateId then some { s with log := s.log.set o (f, false) } else none
    | none => none
  | .onboard f => if f ∈ s.facts then some (s.begin none f .user) else none
  | .fetch o =>
    match s.log[o]? with
    | some (f, true) => some (s.begin (some o) f .seen)
    | _ => none
  | .work k => s.jobs[k]?.map (s.work k)
  | .fail k => some { s with jobs := s.jobs.eraseIdx k }
  | .park o => if o < s.log.length then some { s with parked := o :: s.parked } else none
  | .acknowledge o => if s.Passed o then some { s with committed := o } else none

def Known (a : Accounts) (u : UserId) : Prop := ∃ x ∈ a.users, x.id = u

instance (a : Accounts) (u : UserId) : Decidable (Known a u) :=
  inferInstanceAs (Decidable (∃ x ∈ a.users, _))

/-- An owner is who was logged in when the restaurant was created, and stays its owner; an event has
an id of its own. -/
def Contract (s : System) : Label → Prop
  | .commit f => (∀ u ∈ f.grantee, Known s.accounts u) ∧
      (∀ g ∈ s.facts, g.aggregateId = f.aggregateId → g.grantee = f.grantee) ∧
      ∀ g ∈ s.facts, g.eventId = f.eventId → g = f
  | _ => True

instance (s : System) (l : Label) : Decidable (Contract s l) :=
  match l with
  | .commit f =>
    inferInstanceAs (Decidable ((∀ u ∈ f.grantee, _) ∧ (∀ g ∈ s.facts, _) ∧ ∀ g ∈ s.facts, _))
  | .register _ _ _ _ | .grantRider _ _ _ | .publish _ | .compact _ | .onboard _ | .fetch _
  | .work _ | .fail _ | .park _ | .acknowledge _ => inferInstanceAs (Decidable True)

/-! ### Accounts, later -/

variable {a b c : Accounts} {u : UserId} {f g : Fact} {o k : ℕ} {s t : System} {j : Job} {pc : Pc}

/-- What is never taken back: users, roles and `restaurant_owners` rows. -/
structure Later (a b : Accounts) : Prop where
  known : ∀ u, Known a u → Known b u
  roles : ∀ u r, r ∈ a.rolesOf u → r ∈ b.rolesOf u
  owns : ∀ u, Owns a u → Owns b u

theorem Later.refl (a : Accounts) : Later a a := ⟨fun _ h => h, fun _ _ h => h, fun _ h => h⟩

theorem later_addRole (a : Accounts) (id : UserId) (role : String) : Later a (a.addRole id role) where
  known u h := by rwa [Known, Accounts.users_addRole]
  roles u r h := mem_rolesOf_addRole.mpr (.inl h)
  owns u h := by rwa [Owns, Accounts.owners_addRole]

theorem ownerBrand_addRole (a : Accounts) (id : UserId) (role : String) (u : UserId) :
    (a.addRole id role).ownerBrand u = a.ownerBrand u := by
  rw [Accounts.ownerBrand, Accounts.owners_addRole, Accounts.ownerBrand]

theorem later_setOwnerBrand (a : Accounts) (id : UserId) (x : String) :
    Later a (a.setOwnerBrand id x) where
  known u h := by
    obtain ⟨owners, heq, -⟩ := Accounts.setOwnerBrand_eq (a := a) id x
    rwa [heq]
  roles u r h := by
    obtain ⟨owners, heq, -⟩ := Accounts.setOwnerBrand_eq (a := a) id x
    rwa [heq]
  owns u h := owns_setOwnerBrand.mpr (.inl h)

theorem Later.trans (h : Later a b) (h' : Later b c) : Later a c :=
  ⟨fun u hu => h'.known u (h.known u hu), fun u r hr => h'.roles u r (h.roles u r hr),
    fun u hu => h'.owns u (h.owns u hu)⟩

/-- A row that is overwritten is found as before. -/
theorem find?_overwritten (owners : List (UserId × String)) (id : UserId) (x : String) (u : UserId) :
    (owners.map fun o => if o.1 = id then (id, x) else o).find? (fun o => o.1 = u) =
      (owners.find? fun o => o.1 = u).map fun o => if o.1 = id then (id, x) else o := by
  rw [List.find?_map]
  congr 2
  funext o
  by_cases ho : o.1 = id <;> simp [ho]

/-- Who another brand is set for is another user. -/
theorem ownerBrand_setOwnerBrand (a : Accounts) (id : UserId) (x : String) (hne : u ≠ id) :
    (a.setOwnerBrand id x).ownerBrand u = a.ownerBrand u := by
  unfold Accounts.setOwnerBrand Accounts.ownerBrand
  split
  · show ((a.owners.map _).find? _).map _ = _
    rw [find?_overwritten]
    cases hf : a.owners.find? fun o => decide (o.1 = u) with
    | none => rfl
    | some o =>
      have ho : o.1 = u := by simpa using List.find?_some hf
      simp [ho, hne]
  · rw [List.find?_append]
    cases hf : a.owners.find? fun o => decide (o.1 = u) with
    | none => simp [Ne.symm hne]
    | some o => simp

theorem ownerBrand_setOwnerBrand_self (a : Accounts) (id : UserId) (x : String) :
    (a.setOwnerBrand id x).ownerBrand id = some x := by
  unfold Accounts.setOwnerBrand Accounts.ownerBrand
  split
  · next hany =>
    obtain ⟨o, ho, hid⟩ := List.any_eq_true.mp hany
    show ((a.owners.map _).find? _).map _ = _
    rw [find?_overwritten]
    cases hf : a.owners.find? fun o => decide (o.1 = id) with
    | none => exact absurd hid (List.find?_eq_none.mp hf o ho)
    | some o =>
      have ho : o.1 = id := by simpa using List.find?_some hf
      simp [ho]
  · next hany =>
    have hf : a.owners.find? (fun o => decide (o.1 = id)) = none :=
      List.find?_eq_none.mpr fun o ho hid => hany (List.any_eq_true.mpr ⟨o, ho, hid⟩)
    simp [List.find?_append, hf]

/-- Only a grant of a restaurant changes whose brand is whose. -/
theorem later_of_change {ch : Change} (h : ch.run a = .ok b) : Later a b ∧
    ∀ u x, b.ownerBrand u = some x → a.ownerBrand u = some x ∨ Role.restaurantAdmin.name ∈ b.rolesOf u ∧
      ∃ found roles previous, ch = .grantRestaurantAdmin found roles previous u x := by
  cases does_of_run h with
  | nothing => exact ⟨.refl a, fun _ _ hx => .inl hx⟩
  | @registers found email passwordHash v =>
    have hinsert : Later a { a with users := a.users ++ [⟨v.userId, email, passwordHash⟩] } := by
      refine ⟨fun u hu => ?_, fun u r hr => hr, fun u hu => hu⟩
      obtain ⟨y, hy, rfl⟩ := hu
      exact ⟨y, List.mem_append_left _ hy, rfl⟩
    refine ⟨hinsert.trans (later_addRole _ _ _), fun u x hx => .inl ?_⟩
    rwa [ownerBrand_addRole] at hx
  | @grantsAdmin found roles previous id restaurantId =>
    refine ⟨(later_setOwnerBrand a id restaurantId).trans (later_addRole _ _ _),
      fun u x hx => ?_⟩
    rw [ownerBrand_addRole] at hx
    by_cases hu : u = id
    · subst hu
      rw [ownerBrand_setOwnerBrand_self] at hx
      cases hx
      exact .inr ⟨mem_rolesOf_addRole.mpr (.inr ⟨rfl, rfl⟩), _, _, _, rfl⟩
    · rw [ownerBrand_setOwnerBrand a id restaurantId hu] at hx
      exact .inl hx
  | grantsRider => exact ⟨later_addRole _ _ _, fun u x hx => .inl (by rwa [ownerBrand_addRole] at hx)⟩

/-- Whoever holds the role has a `restaurant_owners` row. -/
def Owned (a : Accounts) : Prop := ∀ u, Role.restaurantAdmin.name ∈ a.rolesOf u → Owns a u

theorem Owned.addRole (h : Owned a) {id : UserId} {role : String}
    (hrole : role = Role.restaurantAdmin.name → Owns a id) : Owned (a.addRole id role) := by
  intro u hu
  refine (later_addRole a id role).owns u ?_
  rcases mem_rolesOf_addRole.mp hu with hold | ⟨rfl, he⟩
  · exact h u hold
  · exact hrole he.symm

/-- **The role comes with the row.** -/
theorem owned_of_change {ch : Change} (ho : Owned a) (h : ch.run a = .ok b) : Owned b := by
  cases does_of_run h with
  | nothing => exact ho
  | @registers found email passwordHash v =>
    have hinsert : Owned { a with users := a.users ++ [⟨v.userId, email, passwordHash⟩] } := ho
    exact hinsert.addRole fun he => absurd he (by decide)
  | @grantsAdmin found roles previous id restaurantId =>
    have hset : Owned (a.setOwnerBrand id restaurantId) := by
      intro u hu
      obtain ⟨owners, heq, -⟩ := Accounts.setOwnerBrand_eq (a := a) id restaurantId
      exact owns_setOwnerBrand.mpr (.inl (ho u (by rwa [heq] at hu)))
    exact hset.addRole fun _ => owns_setOwnerBrand.mpr (.inr rfl)
  | grantsRider => exact ho.addRole fun he => absurd he (by decide)

/-! ### What holds of every state -/

/-- The user is owed nothing more: he rides, or owns a restaurant. -/
def Resolved (a : Accounts) (u : UserId) : Prop := Role.rider.name ∈ a.rolesOf u ∨ Owns a u

/-- What the selects of a grant have returned, stays true. -/
def Pc.Ok (a : Accounts) (u : UserId) : Pc → Prop
  | .seen | .user => True
  | .roles found => found ≠ none
  | .brand found held => found ≠ none ∧ (Role.rider.name ∈ held → Role.rider.name ∈ a.rolesOf u)
  | .write found held previous => found ≠ none ∧
      (Role.rider.name ∈ held → Role.rider.name ∈ a.rolesOf u) ∧ (previous ≠ none → Owns a u)
  | .mark => Resolved a u

structure Job.Ok (s : System) (j : Job) : Prop where
  fact : j.fact ∈ s.facts
  grantee : j.fact.grantee = some j.user
  record : ∀ o, j.offset = some o → recordAt s.log o = some j.fact
  pc : j.pc.Ok s.accounts j.user

structure Kept (s : System) : Prop where
  known : ∀ f ∈ s.facts, ∀ u, f.grantee = some u → Known s.accounts u
  alike : ∀ f ∈ s.facts, ∀ g ∈ s.facts, g.aggregateId = f.aggregateId → g.grantee = f.grantee
  ids : ∀ f ∈ s.facts, ∀ g ∈ s.facts, g.eventId = f.eventId → g = f
  granted : ∀ u x, s.accounts.ownerBrand u = some x →
    Role.restaurantAdmin.name ∈ s.accounts.rolesOf u ∧
      ∃ f ∈ s.facts, f.grantee = some u ∧ f.scope = x
  records : ∀ o f, recordAt s.log o = some f → f ∈ s.facts
  compacted : ∀ o f, s.log[o]? = some (f, false) → Superseded s.log o f.aggregateId
  processed : ∀ e ∈ s.processed, ∃ f ∈ s.facts, f.eventId = e ∧
    ∀ u, f.grantee = some u → Resolved s.accounts u
  jobs : ∀ j ∈ s.jobs, j.Ok s
  handled : ∀ o ∈ s.handled, ∃ f, recordAt s.log o = some f ∧
    ∀ u, f.grantee = some u → Resolved s.accounts u
  committed : s.Passed s.committed

theorem Resolved.later (h : Resolved a u) (hl : Later a b) : Resolved b u :=
  h.imp (hl.roles u _) (hl.owns u)

theorem Pc.Ok.later (h : pc.Ok a u) (hl : Later a b) : pc.Ok b u := by
  cases pc with
  | seen => trivial
  | user => trivial
  | roles found => exact h
  | brand found held => exact ⟨h.1, fun hr => hl.roles u _ (h.2 hr)⟩
  | write found held previous =>
    exact ⟨h.1, fun hr => hl.roles u _ (h.2.1 hr), fun hp => hl.owns u (h.2.2 hp)⟩
  | mark =>
    have hr : Resolved a u := h
    exact hr.later hl

theorem kept_start : Kept .start := by
  refine ⟨fun f h => ?_, fun f h => ?_, fun f h => ?_, fun u x h => ?_, fun o f h => ?_,
    fun o f h => ?_, fun e h => ?_, fun j h => ?_, fun o h => ?_, ?_⟩
  all_goals first | cases h | exact ⟨le_refl _, fun i hi => absurd hi (Nat.not_lt_zero i)⟩

/-- Accounts change, and whose brand is whose only as a fact says. -/
theorem Kept.accounts (h : Kept s) (hl : Later s.accounts a)
    (hg : ∀ u x, a.ownerBrand u = some x → s.accounts.ownerBrand u = some x ∨
      Role.restaurantAdmin.name ∈ a.rolesOf u ∧ ∃ f ∈ s.facts, f.grantee = some u ∧ f.scope = x) :
    Kept { s with accounts := a } where
  known f hf u hu := hl.known u (h.known f hf u hu)
  alike := h.alike
  ids := h.ids
  granted u x hx := by
    rcases hg u x hx with hx | hx
    · exact (h.granted u x hx).imp_left (hl.roles u _)
    · exact hx
  records := h.records
  compacted := h.compacted
  processed e he := by
    obtain ⟨f, hf, hid, hr⟩ := h.processed e he
    exact ⟨f, hf, hid, fun u hu => (hr u hu).later hl⟩
  jobs j hj := by
    have hok := h.jobs j hj
    exact ⟨hok.fact, hok.grantee, hok.record, hok.pc.later hl⟩
  handled o ho := by
    obtain ⟨f, hf, hr⟩ := h.handled o ho
    exact ⟨f, hf, fun u hu => (hr u hu).later hl⟩
  committed := h.committed

/-- Other jobs are in progress. -/
theorem Kept.withJobs (h : Kept s) {jobs : List Job} (hj : ∀ j ∈ jobs, j.Ok s) :
    Kept { s with jobs := jobs } where
  known := h.known
  alike := h.alike
  ids := h.ids
  granted := h.granted
  records := h.records
  compacted := h.compacted
  processed := h.processed
  jobs j hmem := ⟨(hj j hmem).fact, (hj j hmem).grantee, (hj j hmem).record, (hj j hmem).pc⟩
  handled := h.handled
  committed := h.committed

theorem Kept.withHandled (h : Kept s) {offset : Option ℕ}
    (ho : ∀ o, offset = some o → ∃ f, recordAt s.log o = some f ∧
      ∀ u, f.grantee = some u → Resolved s.accounts u) :
    Kept { s with handled := offset.toList ++ s.handled } where
  known := h.known
  alike := h.alike
  ids := h.ids
  granted := h.granted
  records := h.records
  compacted := h.compacted
  processed := h.processed
  jobs j hmem := ⟨(h.jobs j hmem).fact, (h.jobs j hmem).grantee, (h.jobs j hmem).record,
    (h.jobs j hmem).pc⟩
  handled o hmem := by
    rcases List.mem_append.mp hmem with hmem | hmem
    · exact ho o (Option.mem_toList.mp hmem)
    · exact h.handled o hmem
  committed := ⟨h.committed.1, fun i hi hp =>
    (h.committed.2 i hi hp).imp_left (List.mem_append_right _)⟩

/-- A fact is marked as processed. -/
theorem Kept.mark (h : Kept s) (hf : f ∈ s.facts)
    (hr : ∀ u, f.grantee = some u → Resolved s.accounts u) :
    Kept { s with processed := f.eventId :: s.processed } where
  known := h.known
  alike := h.alike
  ids := h.ids
  granted := h.granted
  records := h.records
  compacted := h.compacted
  processed e he := by
    rcases List.mem_cons.mp he with rfl | he
    · exact ⟨f, hf, rfl, hr⟩
    · exact h.processed e he
  jobs j hmem := ⟨(h.jobs j hmem).fact, (h.jobs j hmem).grantee, (h.jobs j hmem).record,
    (h.jobs j hmem).pc⟩
  handled := h.handled
  committed := h.committed

/-! ### One step -/

theorem superseded_iff {log : List (Fact × Bool)} {key : String} : Superseded log o key ↔
    ∃ i g, o < i ∧ recordAt log i = some g ∧ g.aggregateId = key := by
  unfold Superseded recordAt
  constructor
  · rintro ⟨r, hr, rfl⟩
    obtain ⟨i, hi⟩ := List.mem_iff_getElem?.mp hr
    rw [List.getElem?_drop] at hi
    exact ⟨o + 1 + i, r.1, by omega, by rw [hi]; rfl, rfl⟩
  · rintro ⟨i, g, hlt, hg, rfl⟩
    obtain ⟨r, hr, rfl⟩ := Option.map_eq_some_iff.mp hg
    refine ⟨r, List.mem_iff_getElem?.mpr ⟨i - (o + 1), ?_⟩, rfl⟩
    rw [List.getElem?_drop, ← hr]
    congr 1
    omega

theorem recordAt_append {log : List (Fact × Bool)} {r : Fact × Bool} (h : recordAt log o = some f) :
    recordAt (log ++ [r]) o = some f := by
  obtain ⟨x, hx, rfl⟩ := Option.map_eq_some_iff.mp h
  have hlt : o < log.length := (List.getElem?_eq_some_iff.mp hx).1
  rw [recordAt, List.getElem?_append_left hlt, hx]
  rfl

/-- A record that is compacted away is still known as what it was. -/
theorem recordAt_set {log : List (Fact × Bool)} {p : Bool} (h : recordAt log o = some f) (i : ℕ) :
    recordAt (log.set o (f, p)) i = recordAt log i := by
  unfold recordAt at h ⊢
  rw [List.getElem?_set]
  split
  · next heq =>
    subst heq
    obtain ⟨x, hx, hf⟩ := Option.map_eq_some_iff.mp h
    have hlt : o < log.length := (List.getElem?_eq_some_iff.mp hx).1
    rw [if_pos hlt, h]
    rfl
  · rfl

/-- What any two facts have in common, a new one has in common with all. -/
theorem pairs_append {P : Fact → Fact → Prop} {l : List Fact} (h : ∀ x ∈ l, ∀ y ∈ l, P x y)
    (hl : ∀ x ∈ l, P x f) (hr : ∀ y ∈ l, P f y) (hf : P f f) :
    ∀ x ∈ l ++ [f], ∀ y ∈ l ++ [f], P x y := by
  intro x hx y hy
  rcases List.mem_append.mp hx with hx | hx
  · rcases List.mem_append.mp hy with hy | hy
    · exact h x hx y hy
    · rw [List.mem_singleton.mp hy]
      exact hl x hx
  · rw [List.mem_singleton.mp hx]
    rcases List.mem_append.mp hy with hy | hy
    · exact hr y hy
    · rw [List.mem_singleton.mp hy]
      exact hf

theorem Kept.commit (h : Kept s) (hc : Contract s (.commit f)) :
    Kept { s with facts := s.facts ++ [f] } := by
  obtain ⟨hknown, halike, hid⟩ := hc
  have hsub : ∀ g ∈ s.facts, g ∈ s.facts ++ [f] := fun g hg => List.mem_append_left _ hg
  refine ⟨fun g hg u hu => ?_,
    pairs_append h.alike (fun x hx he => (halike x hx he.symm).symm) halike fun _ => rfl,
    pairs_append h.ids (fun x hx he => (hid x hx he.symm).symm) hid fun _ => rfl,
    fun u x hx => ?_, fun o g hg => hsub g (h.records o g hg), h.compacted, fun e he => ?_,
    fun j hj => ?_, h.handled, h.committed⟩
  · rcases List.mem_append.mp hg with hg | hg
    · exact h.known g hg u hu
    · rw [List.mem_singleton.mp hg] at hu
      exact hknown u hu
  · obtain ⟨hrole, g, hg, hgrant⟩ := h.granted u x hx
    exact ⟨hrole, g, hsub g hg, hgrant⟩
  · obtain ⟨g, hg, hgid⟩ := h.processed e he
    exact ⟨g, hsub g hg, hgid⟩
  · have hok := h.jobs j hj
    exact ⟨hsub _ hok.fact, hok.grantee, hok.record, hok.pc⟩

theorem Kept.publish (h : Kept s) (hf : f ∈ s.facts) :
    Kept { s with log := s.log ++ [(f, true)] } := by
  refine ⟨h.known, h.alike, h.ids, h.granted, fun o g hg => ?_, fun o g hg => ?_, h.processed,
    fun j hj => ?_, fun o ho => ?_, ?_, fun i hi hp => ?_⟩
  · rcases Nat.lt_or_ge o s.log.length with hlt | hge
    · refine h.records o g ?_
      rwa [recordAt, List.getElem?_append_left hlt] at hg
    · obtain ⟨x, hx, rfl⟩ := Option.map_eq_some_iff.mp hg
      rw [List.getElem?_append_right hge] at hx
      rw [List.mem_singleton.mp (List.mem_of_getElem? hx)]
      exact hf
  · rcases Nat.lt_or_ge o s.log.length with hlt | hge
    · rw [List.getElem?_append_left hlt] at hg
      obtain ⟨i, g', hi, hg', heq⟩ := superseded_iff.mp (h.compacted o g hg)
      exact superseded_iff.mpr ⟨i, g', hi, recordAt_append hg', heq⟩
    · rw [List.getElem?_append_right hge] at hg
      cases List.mem_singleton.mp (List.mem_of_getElem? hg)
  · have hok := h.jobs j hj
    exact ⟨hok.fact, hok.grantee, fun o ho => recordAt_append (hok.record o ho), hok.pc⟩
  · obtain ⟨g, hg, hr⟩ := h.handled o ho
    exact ⟨g, recordAt_append hg, hr⟩
  · have hle := h.committed.1
    show s.committed ≤ (s.log ++ [(f, true)]).length
    rw [List.length_append]
    omega
  · have hlt : i < s.log.length := Nat.lt_of_lt_of_le hi h.committed.1
    have hp : (s.log ++ [(f, true)])[i]?.any Prod.snd := hp
    rw [List.getElem?_append_left hlt] at hp
    exact h.committed.2 i hi hp

theorem Kept.compact (h : Kept s) (hf : recordAt s.log o = some f)
    (hsup : Superseded s.log o f.aggregateId) : Kept { s with log := s.log.set o (f, false) } := by
  have hrec : ∀ i, recordAt (s.log.set o (f, false)) i = recordAt s.log i := recordAt_set hf
  have hsame : ∀ i key, Superseded s.log i key → Superseded (s.log.set o (f, false)) i key := by
    intro i key hi
    obtain ⟨i', g, hlt, hg, heq⟩ := superseded_iff.mp hi
    exact superseded_iff.mpr ⟨i', g, hlt, (hrec i').trans hg, heq⟩
  refine ⟨h.known, h.alike, h.ids, h.granted, fun i g hg => h.records i g ((hrec i).symm.trans hg),
    fun i g hg => hsame i _ ?_, h.processed, fun j hj => ?_, fun i hi => ?_, ?_, fun i hi hp => ?_⟩
  · by_cases heq : o = i
    · subst heq
      have hsame : recordAt (s.log.set o (f, false)) o = some g := by
        rw [recordAt, hg]
        rfl
      rw [hrec o, hf] at hsame
      cases hsame
      exact hsup
    · refine h.compacted i g ?_
      rwa [List.getElem?_set_ne heq] at hg
  · have hok := h.jobs j hj
    exact ⟨hok.fact, hok.grantee, fun i hi => (hrec i).trans (hok.record i hi), hok.pc⟩
  · obtain ⟨g, hg, hr⟩ := h.handled i hi
    exact ⟨g, (hrec i).trans hg, hr⟩
  · show s.committed ≤ (s.log.set o (f, false)).length
    rw [List.length_set]
    exact h.committed.1
  · have hp : (s.log.set o (f, false))[i]?.any Prod.snd := hp
    by_cases heq : o = i
    · rw [List.getElem?_set, if_pos heq] at hp
      split at hp
      · cases hp
      · cases hp
    · rw [List.getElem?_set_ne heq] at hp
      exact h.committed.2 i hi hp

/-- What the accounts look like to a job, is all that the other fields are to it. -/
theorem Job.Ok.congr (h : j.Ok s) (hfacts : t.facts = s.facts) (hlog : t.log = s.log)
    (hacc : t.accounts = s.accounts) : j.Ok t := by
  refine ⟨by rw [hfacts]; exact h.fact, h.grantee, fun o ho => ?_, by rw [hacc]; exact h.pc⟩
  rw [hlog]
  exact h.record o ho

theorem Kept.begin (h : Kept s) {offset : Option ℕ} (hf : f ∈ s.facts)
    (ho : ∀ o, offset = some o → recordAt s.log o = some f) (hpc : pc = .seen ∨ pc = .user) :
    Kept (s.begin offset f pc) := by
  unfold System.begin
  split
  · next u hu =>
    refine h.withJobs fun j hj => ?_
    rcases List.mem_cons.mp hj with rfl | hj
    · refine ⟨hf, hu, ho, ?_⟩
      rcases hpc with rfl | rfl
      · trivial
      · trivial
    · exact h.jobs j hj
  · next hnone =>
    refine h.withHandled fun o heq => ⟨f, ho o heq, fun u hu => ?_⟩
    rw [hnone] at hu
    cases hu

theorem Kept.to (h : Kept s) (hj : s.jobs[k]? = some j) (hpc : pc.Ok s.accounts j.user) :
    Kept (s.to k j pc) := by
  have hok := h.jobs j (List.mem_of_getElem? hj)
  refine h.withJobs fun j' hj' => ?_
  rcases List.mem_or_eq_of_mem_set hj' with hj' | rfl
  · exact h.jobs j' hj'
  · exact ⟨hok.fact, hok.grantee, hok.record, hpc⟩

theorem Kept.done (h : Kept s) (hj : s.jobs[k]? = some j)
    (hr : ∀ o, j.offset = some o → Resolved s.accounts j.user) : Kept (s.done k j) := by
  have hok := h.jobs j (List.mem_of_getElem? hj)
  have hjobs : Kept { s with jobs := s.jobs.eraseIdx k } :=
    h.withJobs fun j' hj' => h.jobs j' (List.mem_of_mem_eraseIdx hj')
  refine hjobs.withHandled fun o ho => ⟨j.fact, hok.record o ho, fun u hu => ?_⟩
  rw [hok.grantee] at hu
  cases hu
  exact hr o ho

theorem Kept.change (h : Kept s) {ch : Change} (hs : s.change ch = some t)
    (hg : ∀ found roles previous u x, ch = .grantRestaurantAdmin found roles previous u x →
      ∃ f ∈ s.facts, f.grantee = some u ∧ f.scope = x) : Kept t := by
  unfold System.change at hs
  split at hs
  · next a ha =>
    cases hs
    obtain ⟨hl, ho⟩ := later_of_change ha
    refine h.accounts hl fun u x hx => (ho u x hx).imp_right ?_
    rintro ⟨hrole, found, roles, previous, heq⟩
    exact ⟨hrole, hg found roles previous u x heq⟩
  · cases hs

variable {found : Option User} {held : Finset String} {previous : Option String}

theorem Kept.grant (h : Kept s) (hok : j.Ok s) : Kept (s.grant j found held previous) := by
  unfold System.grant
  cases hc : s.change (.grantRestaurantAdmin found held previous j.user j.fact.scope) with
  | none => exact h
  | some t =>
    refine h.change hc fun found roles previous u x heq => ?_
    cases heq
    exact ⟨j.fact, hok.fact, hok.grantee, rfl⟩

/-- **Whatever has happened since it has read, a grant that writes leaves its user resolved.** -/
theorem resolved_grant (hpc : (Pc.write found held previous).Ok s.accounts j.user) :
    Resolved (s.grant j found held previous).accounts j.user := by
  obtain ⟨hfound, hrider, howns⟩ := hpc
  obtain ⟨x, rfl⟩ := Option.ne_none_iff_exists'.mp hfound
  unfold System.grant System.change
  simp only [Change.run, grantRestaurantAdmin]
  by_cases hr : Role.rider.name ∈ held
  · -- he has become a rider: the grant is refused
    rw [if_pos hr]
    exact .inl (hrider hr)
  · rw [if_neg hr]
    by_cases hp : previous = some j.fact.scope
    · rw [if_pos hp]
      exact .inr (howns (by rw [hp]; exact Option.some_ne_none _))
    · rw [if_neg hp]
      refine .inr ((later_addRole _ _ _).owns _ ?_)
      exact owns_setOwnerBrand.mpr (.inr rfl)

/-- A grant leaves everything but the accounts alone. -/
theorem grant_frame (s : System) (j : Job) (found : Option User) (held : Finset String)
    (previous : Option String) : ∃ a, s.grant j found held previous = { s with accounts := a } := by
  unfold System.grant System.change
  split
  · exact ⟨_, rfl⟩
  · exact ⟨s.accounts, rfl⟩

/-- A step changes the accounts as a call does, or not at all. -/
theorem accounts_of_step {l : Label} (hs : step s l = some t) :
    t.accounts = s.accounts ∨ ∃ ch : Change, ch.run s.accounts = .ok t.accounts := by
  have hchange : ∀ {ch u}, s.change ch = some u → ∃ ch : Change, ch.run s.accounts = .ok u.accounts := by
    intro ch u h
    unfold System.change at h
    split at h
    · next a ha =>
      cases h
      exact ⟨ch, ha⟩
    · cases h
  have hgrant : ∀ j found held previous, (s.grant j found held previous).accounts = s.accounts ∨
      ∃ ch : Change, ch.run s.accounts = .ok (s.grant j found held previous).accounts := by
    intro j found held previous
    unfold System.grant
    cases h : s.change _ with
    | none => exact .inl rfl
    | some u => exact .inr (hchange h)
  have hbegin : ∀ offset f pc, (s.begin offset f pc).accounts = s.accounts := by
    intro offset f pc
    unfold System.begin
    split <;> rfl
  cases l with
  | register | grantRider => exact .inr (hchange hs)
  | onboard f =>
    simp only [step] at hs
    split at hs
    · cases hs
      exact .inl (hbegin _ _ _)
    · cases hs
  | fetch o =>
    simp only [step] at hs
    split at hs
    · cases hs
      exact .inl (hbegin _ _ _)
    · cases hs
  | work k =>
    obtain ⟨j, -, rfl⟩ := Option.map_eq_some_iff.mp hs
    unfold System.work
    split
    · split <;> exact .inl rfl
    · exact .inl rfl
    · exact .inl rfl
    · exact .inl rfl
    · split <;> exact hgrant _ _ _ _
    · exact .inl rfl
  | commit | fail =>
    cases hs
    exact .inl rfl
  | publish | park | acknowledge =>
    simp only [step] at hs
    split at hs <;> cases hs
    exact .inl rfl
  | compact o =>
    simp only [step] at hs
    split at hs
    · split at hs <;> cases hs
      exact .inl rfl
    · cases hs

theorem owned_step {l : Label} (h : Owned s.accounts) (hs : step s l = some t) :
    Owned t.accounts := by
  rcases accounts_of_step hs with he | ⟨ch, hch⟩
  · rwa [he]
  · exact owned_of_change h hch

theorem Kept.work (h : Kept s) (hj : s.jobs[k]? = some j) : Kept (s.work k j) := by
  have hok : j.Ok s := h.jobs j (List.mem_of_getElem? hj)
  have hpc := hok.pc
  unfold System.work
  cases hat : j.pc with
  | seen =>
    dsimp only
    split
    · next hmem =>
      -- the event has an id of its own, so it is this fact that is marked
      obtain ⟨f, hf, hid, hr⟩ := h.processed _ hmem
      rw [h.ids _ hok.fact f hf hid] at hr
      exact h.done hj fun _ _ => hr _ hok.grantee
    · exact h.to hj trivial
  | user =>
    refine h.to hj ?_
    obtain ⟨x, hx, hid⟩ := h.known _ hok.fact _ hok.grantee
    intro hnone
    exact List.find?_eq_none.mp hnone x hx (decide_eq_true hid)
  | roles found =>
    rw [hat] at hpc
    exact h.to hj ⟨hpc, fun hr => hr⟩
  | brand found held =>
    rw [hat] at hpc
    exact h.to hj ⟨hpc.1, hpc.2, fun hp => owns_iff.mpr hp⟩
  | write found held previous =>
    rw [hat] at hpc
    have hg : Kept (s.grant j found held previous) := h.grant hok
    have hr : Resolved (s.grant j found held previous).accounts j.user := resolved_grant hpc
    obtain ⟨a, ha⟩ := grant_frame s j found held previous
    have hj' : (s.grant j found held previous).jobs[k]? = some j := by rw [ha]; exact hj
    dsimp only
    split
    · next hnone =>
      refine hg.done hj' fun o ho => ?_
      rw [hnone] at ho
      cases ho
    · exact hg.to hj' hr
  | mark =>
    rw [hat] at hpc
    have hm : Kept { s with processed := j.fact.eventId :: s.processed } := by
      refine h.mark hok.fact fun u hu => ?_
      rw [hok.grantee] at hu
      cases hu
      exact hpc
    exact hm.done hj fun _ _ => hpc

theorem kept_step {l : Label} (h : Kept s) (hc : Contract s l) (hs : step s l = some t) :
    Kept t := by
  cases l with
  | register found email passwordHash u =>
    refine h.change hs fun found roles previous u x heq => ?_
    cases heq
  | grantRider found roles id =>
    refine h.change hs fun found roles previous u x heq => ?_
    cases heq
  | commit f =>
    cases hs
    exact h.commit hc
  | publish f =>
    simp only [step] at hs
    split at hs
    · next hf =>
      cases hs
      exact h.publish hf
    · cases hs
  | compact o =>
    simp only [step] at hs
    split at hs
    · next f hf =>
      split at hs
      · next hsup =>
        cases hs
        exact h.compact hf hsup
      · cases hs
    · cases hs
  | onboard f =>
    simp only [step] at hs
    split at hs
    · next hf =>
      cases hs
      exact h.begin hf (fun o ho => by cases ho) (.inr rfl)
    · cases hs
  | fetch o =>
    simp only [step] at hs
    split at hs
    · next f hf =>
      cases hs
      have hrec : recordAt s.log o = some f := by rw [recordAt, hf]; rfl
      refine h.begin (h.records o f hrec) (fun o' ho => ?_) (.inl rfl)
      cases ho
      exact hrec
    · cases hs
  | work k =>
    obtain ⟨j, hj, rfl⟩ := Option.map_eq_some_iff.mp hs
    exact h.work hj
  | fail k =>
    cases hs
    exact h.withJobs fun j hj => h.jobs j (List.mem_of_mem_eraseIdx hj)
  | park o =>
    simp only [step] at hs
    split at hs
    · cases hs
      refine ⟨h.known, h.alike, h.ids, h.granted, h.records, h.compacted, h.processed,
        fun j hj => (h.jobs j hj).congr rfl rfl rfl, h.handled, h.committed.1, fun i hi hp => ?_⟩
      exact (h.committed.2 i hi hp).imp_right (List.mem_cons_of_mem _)
    · cases hs
  | acknowledge o =>
    simp only [step] at hs
    split at hs
    · next hp =>
      cases hs
      exact ⟨h.known, h.alike, h.ids, h.granted, h.records, h.compacted, h.processed,
        fun j hj => (h.jobs j hj).congr rfl rfl rfl, h.handled, hp⟩
    · cases hs

/-! ### Convergence -/

/-- The labels of the consumer, which begins where the group has committed. -/
def Consumes (s : System) : Label → Prop
  | .fetch o => s.committed ≤ o
  | .work _ | .acknowledge _ => True
  | _ => False

/-- The last record of an aggregate. -/
def IsLast (log : List (Fact × Bool)) (key : String) (o : ℕ) : Prop :=
  (∃ f, recordAt log o = some f ∧ f.aggregateId = key) ∧ ¬ Superseded log o key

/-- An owner is an admin, of what a fact names. -/
def Admin (s : System) (u : UserId) : Prop :=
  Role.restaurantAdmin.name ∈ s.accounts.rolesOf u ∧
    ∃ f ∈ s.facts, f.grantee = some u ∧ s.accounts.ownerBrand u = some f.scope

structure Converged (s : System) : Prop where
  /-- Nobody is an admin of anything but what a fact says. -/
  granted : ∀ u x, s.accounts.ownerBrand u = some x →
    Role.restaurantAdmin.name ∈ s.accounts.rolesOf u ∧
      ∃ f ∈ s.facts, f.grantee = some u ∧ f.scope = x
  /-- Nobody holds the role but an owner whom a fact names, and of what it says. -/
  admins : ∀ u, Role.restaurantAdmin.name ∈ s.accounts.rolesOf u → Admin s u
  /-- Where the group has committed past the last record of a restaurant, and this was not parked, the
  owner is an admin, or rides. -/
  settled : ∀ f ∈ s.facts, ∀ u, f.grantee = some u → ∀ o, IsLast s.log f.aggregateId o →
    o < s.committed → o ∉ s.parked → Role.rider.name ∈ s.accounts.rolesOf u ∨ Admin s u
  /-- The topic keeps a last record of whatever it has had. -/
  kept : ∀ o f, recordAt s.log o = some f → ∃ o', IsLast s.log f.aggregateId o'
  /-- Whatever has failed so far, the consumer alone can get to the end of the topic. -/
  drains : ∃ ls t, Run step Consumes s ls t ∧ t.log = s.log ∧ t.facts = s.facts ∧
    t.parked = s.parked ∧ t.committed = t.log.length

theorem exists_last {log : List (Fact × Bool)} (h : recordAt log o = some f) :
    ∃ o', IsLast log f.aggregateId o' := by
  -- by induction on what is left behind the record
  induction hn : log.length - o using Nat.strong_induction_on generalizing o f with
  | _ n ih =>
    by_cases hsup : Superseded log o f.aggregateId
    · obtain ⟨i, g, hlt, hg, heq⟩ := superseded_iff.mp hsup
      obtain ⟨x, hx, -⟩ := Option.map_eq_some_iff.mp hg
      have hi : i < log.length := (List.getElem?_eq_some_iff.mp hx).1
      obtain ⟨o', ho'⟩ := ih (log.length - i) (by omega) hg rfl
      exact ⟨o', heq ▸ ho'⟩
    · exact ⟨o, ⟨f, h, rfl⟩, hsup⟩

theorem Kept.admin (h : Kept s) (howns : Owns s.accounts u) : Admin s u := by
  obtain ⟨x, hx⟩ := Option.ne_none_iff_exists'.mp (owns_iff.mp howns)
  obtain ⟨hrole, f, hf, hgrant, rfl⟩ := h.granted u x hx
  exact ⟨hrole, f, hf, hgrant, hx⟩

theorem Kept.settled (h : Kept s) (hf : f ∈ s.facts) (hu : f.grantee = some u)
    (hl : IsLast s.log f.aggregateId o) (ho : o < s.committed) (hp : o ∉ s.parked) :
    Role.rider.name ∈ s.accounts.rolesOf u ∨ Admin s u := by
  obtain ⟨⟨g, hg, hkey⟩, hlast⟩ := hl
  obtain ⟨⟨g', p⟩, hx, rfl⟩ := Option.map_eq_some_iff.mp hg
  have hgrant : g'.grantee = some u :=
    (h.alike f hf g' (h.records o g' hg) hkey).trans hu
  cases p with
  | false => exact absurd (hkey ▸ h.compacted o g' hx) hlast
  | true =>
    rcases h.committed.2 o ho (by rw [hx]; rfl) with hh | hh
    · obtain ⟨g'', hg'', hr⟩ := h.handled o hh
      cases hg.symm.trans hg''
      exact (hr u hgrant).imp_right h.admin
    · exact absurd hh hp

/-! ### The consumer gets on -/

def Pc.rank : Pc → ℕ
  | .seen => 5
  | .user => 4
  | .roles _ => 3
  | .brand _ _ => 2
  | .write _ _ _ => 1
  | .mark => 0

/-- What the consumer does not change, and that it has handled an offset. -/
structure Drained (o : ℕ) (s t : System) : Prop where
  log : t.log = s.log
  facts : t.facts = s.facts
  parked : t.parked = s.parked
  committed : t.committed = s.committed
  handled : o ∈ t.handled ∧ s.handled ⊆ t.handled

/-- A statement of a handler ends it, or brings it nearer to its end. -/
theorem work_cases (s : System) (ho : j.offset = some o) :
    Drained o s (s.work 0 j) ∨ ∃ pc a, pc.rank < j.pc.rank ∧
      s.work 0 j = { s with accounts := a, jobs := s.jobs.set 0 { j with pc := pc } } := by
  have hdone : ∀ processed, Drained o s ({ s with processed := processed }.done 0 j) := fun _ => by
    refine ⟨rfl, rfl, rfl, rfl, ?_, fun i hi => List.mem_append_right _ hi⟩
    exact List.mem_append_left _ (Option.mem_toList.mpr ho)
  unfold System.work
  cases hat : j.pc with
  | seen =>
    dsimp only
    split
    · exact .inl (hdone s.processed)
    · exact .inr ⟨.user, s.accounts, by simp [Pc.rank], rfl⟩
  | user => exact .inr ⟨.roles _, s.accounts, by simp [Pc.rank], rfl⟩
  | roles found => exact .inr ⟨.brand _ _, s.accounts, by simp [Pc.rank], rfl⟩
  | brand found held => exact .inr ⟨.write _ _ _, s.accounts, by simp [Pc.rank], rfl⟩
  | write found held previous =>
    obtain ⟨a, ha⟩ := grant_frame s j found held previous
    have hne : j.offset ≠ none := by rw [ho]; exact Option.some_ne_none o
    dsimp only
    rw [if_neg hne, ha]
    exact .inr ⟨.mark, a, by simp [Pc.rank], rfl⟩
  | mark => exact .inl (hdone _)

theorem run_job (hj : s.jobs[0]? = some j) (ho : j.offset = some o) :
    ∃ ls t, Run step Consumes s ls t ∧ Drained o s t := by
  -- by induction on the statements that are left
  induction hn : j.pc.rank using Nat.strong_induction_on generalizing s j with
  | _ n ih =>
    have hstep : step s (.work 0) = some (s.work 0 j) := by
      show (s.jobs[0]?).map (s.work 0) = _
      rw [hj]
      rfl
    rcases work_cases s ho with hd | ⟨pc, a, hlt, heq⟩
    · exact ⟨[.work 0], _, Run.nil.snoc trivial hstep, hd⟩
    · have hlen : 0 < s.jobs.length := (List.getElem?_eq_some_iff.mp hj).1
      have hj' : (s.work 0 j).jobs[0]? = some { j with pc := pc } := by
        rw [heq]
        show (s.jobs.set 0 _)[0]? = _
        rw [List.getElem?_set_self hlen]
      obtain ⟨ls, t, hrun, hd⟩ := ih pc.rank (hn ▸ hlt) hj' ho rfl
      refine ⟨.work 0 :: ls, t, .cons trivial hstep hrun, ?_⟩
      rw [heq] at hd
      exact ⟨hd.log, hd.facts, hd.parked, hd.committed, hd.handled⟩

/-- A record is fetched and handled. -/
theorem run_fetch (ho : s.committed ≤ o) (hf : s.log[o]? = some (f, true)) :
    ∃ ls t, Run step Consumes s ls t ∧ Drained o s t := by
  have hstep : step s (.fetch o) = some (s.begin (some o) f .seen) := by
    simp only [step, hf]
  cases hg : f.grantee with
  | none =>
    refine ⟨[.fetch o], _, Run.nil.snoc ho hstep, ?_⟩
    rw [System.begin, hg]
    exact ⟨rfl, rfl, rfl, rfl, List.mem_cons_self, fun i hi => List.mem_cons_of_mem _ hi⟩
  | some u =>
    have hb : s.begin (some o) f .seen = { s with jobs := ⟨some o, f, u, .seen⟩ :: s.jobs } := by
      rw [System.begin, hg]
    rw [hb] at hstep
    obtain ⟨ls, t, hrun, hd⟩ := run_job (j := ⟨some o, f, u, .seen⟩) (o := o)
      (s := { s with jobs := ⟨some o, f, u, .seen⟩ :: s.jobs }) rfl rfl
    exact ⟨.fetch o :: ls, t, .cons ho hstep hrun, hd.log, hd.facts, hd.parked, hd.committed,
      hd.handled⟩

theorem kept_of_consumes {ls : List Label} (h : Kept s) (hrun : Run step Consumes s ls t) :
    Kept t := by
  refine hrun.invariant h fun v l w hv hc hs => kept_step hv ?_ hs
  cases l <;> trivial

/-- The next record is done with. -/
theorem run_next (h : Kept s) (hlt : s.committed < s.log.length) :
    ∃ ls t, Run step Consumes s ls t ∧ t.log = s.log ∧ t.facts = s.facts ∧ t.parked = s.parked ∧
      t.committed = s.committed + 1 := by
  obtain ⟨⟨f, p⟩, hf⟩ : ∃ r, s.log[s.committed]? = some r := ⟨_, List.getElem?_eq_getElem hlt⟩
  have hack : ∀ t : System, t.log = s.log → t.parked = s.parked → s.handled ⊆ t.handled →
      (p = true → s.committed ∈ t.handled) →
      step t (.acknowledge (s.committed + 1)) = some { t with committed := s.committed + 1 } := by
    intro t hlog hparked hsub hmem
    refine if_pos ⟨by rw [hlog]; exact hlt, fun i hi hp => ?_⟩
    rw [hlog] at hp
    rcases Nat.lt_succ_iff_lt_or_eq.mp hi with hi | rfl
    · rw [hparked]
      exact (h.committed.2 i hi hp).imp_left fun hh => hsub hh
    · rw [hf] at hp
      exact .inl (hmem hp)
  cases p with
  | false =>
    refine ⟨[.acknowledge (s.committed + 1)], _, Run.nil.snoc trivial (hack s rfl rfl (fun _ hi => hi) ?_),
      rfl, rfl, rfl, rfl⟩
    intro hp
    cases hp
  | true =>
    obtain ⟨ls, t, hrun, hd⟩ := run_fetch (le_refl _) hf
    refine ⟨ls ++ [.acknowledge (s.committed + 1)], _,
      hrun.snoc (show Consumes t (.acknowledge _) from trivial) (hack t hd.log hd.parked hd.handled.2 fun _ => hd.handled.1), ?_⟩
    exact ⟨hd.log, hd.facts, hd.parked, rfl⟩

theorem run_drains (h : Kept s) : ∃ ls t, Run step Consumes s ls t ∧ t.log = s.log ∧
    t.facts = s.facts ∧ t.parked = s.parked ∧ t.committed = t.log.length := by
  -- by induction on the records that are left
  induction hn : s.log.length - s.committed generalizing s with
  | zero =>
    refine ⟨[], s, .nil, rfl, rfl, rfl, ?_⟩
    have hle := h.committed.1
    omega
  | succ n ih =>
    obtain ⟨ls, t, hrun, hlog, hfacts, hparked, hcomm⟩ := run_next h (by omega)
    obtain ⟨ls', t', hrun', hlog', hfacts', hparked', hcomm'⟩ :=
      ih (kept_of_consumes h hrun) (by rw [hlog, hcomm]; omega)
    exact ⟨ls ++ ls', t', hrun.append hrun', hlog'.trans hlog, hfacts'.trans hfacts,
      hparked'.trans hparked, hcomm'⟩

/-- **A grant that was lost is made up for**, whatever compaction has left of the topic. -/
theorem converged_of_run {ls : List Label} (hrun : Run step Contract .start ls s) :
    Converged s := by
  have h : Kept s := hrun.invariant kept_start fun _ _ _ hi hc hs => kept_step hi hc hs
  have howned : Owned s.accounts := by
    refine hrun.invariant (I := fun s => Owned s.accounts) (fun u hu => ?_)
      fun _ _ _ hi _ hs => owned_step hi hs
    cases Accounts.mem_rolesOf.mp hu
  exact ⟨h.granted, fun u hu => h.admin (howned u hu), fun f hf u hu o hl ho hp => h.settled hf hu hl ho hp,
    fun o f hf => exists_last hf, run_drains h⟩

/-! ### An onboarding that is lost -/

def oneUuid : Uuid := ⟨"6f1c02b7d94e4a8f9b3350c7ae21d864", by decide, by decide⟩

def created : Fact := ⟨"evt_1", "restaurant", "brd_1", some oneUuid.userId, some "brd_1"⟩

/-- The menu of the same restaurant has been edited. -/
def edited : Fact := { created with eventId := "evt_2" }

/-- The onboarding fails, and its event is compacted away; a later one is delivered twice. -/
def lostOnboarding : List Label :=
  [.register none "ana@example.com" "pw" oneUuid, .commit created, .onboard created, .work 0,
    .fail 0, .publish created, .commit edited, .publish edited, .compact 0, .fetch 1, .work 0,
    .work 0, .work 0, .work 0, .work 0, .fetch 1, .work 1, .work 0, .acknowledge 2]

theorem converged_of_run_lostOnboarding : ∃ s, Run step Contract .start lostOnboarding s ∧
    (s.accounts.ownerBrand oneUuid.userId = some "brd_1" ∧ s.processed = ["evt_2"] ∧
      s.log = [(created, false), (edited, true)]) ∧ Converged s := by
  obtain ⟨s, hrun, hp⟩ : ∃ s, Run step Contract .start lostOnboarding s ∧
      decide (s.accounts.ownerBrand oneUuid.userId = some "brd_1" ∧ s.processed = ["evt_2"] ∧
        s.log = [(created, false), (edited, true)]) = true :=
    exists_run_of_execOk (by decide +kernel)
  exact ⟨s, hrun, of_decide_eq_true hp, converged_of_run hrun⟩

end Identity.Convergence
