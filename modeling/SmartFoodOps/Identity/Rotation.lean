/-
A refresh token is redeemed once, unless two calls have read it.

* `Issues`, `body_issues` — a call that succeeds has written one row, with the hash of the
  token that it returns, a token that no other call has drawn;
* `Redemptions`, with `Redemptions.login` and `Redemptions.refresh` — what holds of the
  table and of the answers so far;
* `Unrotated`, `sound_step` — a refresh whose session still has the token that was presented;
* `OneLive` — the live token of a session is the one returned last;
* `Undisturbed`, `unrotated_of_undisturbed` — the sessions that are rotated between a refresh's
  read and its commit, and what the code's lookup by hash gives if its own is not one of them;
* `redeemed_of_run` — both hold after every undisturbed run.
-/
import SmartFoodOps.Identity.Sessions
import SmartFoodOps.Lib.Overlap

open Auth Keyed Machine Program

namespace Identity

variable {c : Config} {purposeOf : ℕ → Purpose} {n : ℕ} {s t : System n} {e : Event n}

/-! ### What a call writes -/

/-- A call has written one row, with the hash of the token that it returns. -/
def Issues (c : Config) (purposeOf : ℕ → Purpose) (number : ℕ) (call : Call) (pair : TokenPair)
    (ws : List Write) : Prop :=
  purposeOf (c.hash pair.refreshToken) = .token number ∧
    match call with
    | .login _ _ => ∃ row, ws = [.open row] ∧ purposeOf row.id = .session number ∧
        row.tokenSha256 = c.hash pair.refreshToken
    | .refresh _ => ∃ id expiresAt, ws = [.rotate id (c.hash pair.refreshToken) expiresAt]

/-- Whatever its statements see, the program issues a pair. -/
abbrev Issuing (c : Config) (purposeOf : ℕ → Purpose) (number : ℕ) (call : Call)
    (p : Session TokenPair) (ws : List Write) : Prop :=
  Ensures (Drawn c purposeOf) (fun _ => True) (fun _ => True) p (Issues c purposeOf number call) ws

theorem ensures_openSession (c : Config) (purposeOf : ℕ → Purpose) {number : ℕ}
    {userId : UserId} {h : Digest} {expiresAt : ℕ} :
    Ensures (Drawn c purposeOf) (fun _ => True) (fun _ => True)
      (openSession number userId h expiresAt)
      (fun _ ws => ∃ row, ws = [.open row] ∧ purposeOf row.id = .session number ∧
        row.tokenSha256 = h) [] := by
  intro id hid
  refine ensures_execute fun db u w _ hw => ⟨fun _ _ => trivial, ?_⟩
  split at hw
  · cases hw
    exact ⟨_, rfl, hid, rfl⟩
  · cases hw

theorem ensures_rotateSession (c : Config) (purposeOf : ℕ → Purpose) {id : SessionId} {h : Digest}
    {expiresAt : ℕ} :
    Ensures (Drawn c purposeOf) (fun _ => True) (fun _ => True)
      (rotateSession id h expiresAt) (fun _ ws => ws = [.rotate id h expiresAt]) [] := by
  refine ensures_execute fun db u w _ hw => ⟨fun _ _ => trivial, ?_⟩
  split at hw
  · cases hw
    rfl
  · cases hw

theorem issuing_issuePair {number : ℕ} {call : Call} {user : User} {id : Option SessionId}
    (hid : id.isSome ↔ call.presented.isSome) :
    Issuing c purposeOf number call (issuePair c number user id) [] := by
  refine ensures_bind.mpr (ensures_select fun db _ => ?_)
  refine ensures_bind.mpr (ensures_select fun db' _ => ?_)
  split
  · trivial
  next access _ =>
  intro token htoken now _
  cases id with
  | none =>
    refine ensures_bind.mpr ((ensures_openSession c purposeOf).mono fun _ ws hws => ⟨htoken, ?_⟩)
    cases call with
    | login => exact hws
    | refresh => cases hid.mpr rfl
  | some id =>
    refine ensures_bind.mpr ((ensures_rotateSession c purposeOf).mono fun _ ws hws => ⟨htoken, ?_⟩)
    cases call with
    | login => cases hid.mp rfl
    | refresh => exact ⟨id, _, hws⟩

/-- **Every call issues a pair.** -/
theorem body_issues (number : ℕ) (call : Call) :
    Issuing c purposeOf number call (call.body c number) [] := by
  cases call with
  | login email password =>
    refine ensures_bind.mpr (ensures_select fun db _ => ?_)
    split
    · trivial
    split
    · exact issuing_issuePair (by simp [Call.presented])
    · trivial
  | refresh token =>
    refine ensures_bind.mpr (ensures_select fun db _ => ?_)
    split
    · trivial
    intro now _
    show Ensures _ _ _ (if _ then _ else _) _ _
    split
    · trivial
    refine ensures_bind.mpr (ensures_select fun db' _ => ?_)
    split
    · trivial
    · exact issuing_issuePair (by simp [Call.presented])

/-! ### The table and the answers -/

/-- The last answer of a session. -/
def newest (answers : List Answer) (id : SessionId) : Option Answer :=
  answers.find? fun a => a.session = some id

/-- The call has redeemed a token with this hash. -/
def Answer.Redeems (c : Config) (h : Digest) (a : Answer) : Prop :=
  a.call.presented.map c.hash = some h

instance (c : Config) (h : Digest) (a : Answer) : Decidable (a.Redeems c h) :=
  inferInstanceAs (Decidable (_ = _))

/-- How many calls have redeemed a token with this hash. -/
def redemptions (c : Config) (answers : List Answer) (h : Digest) : ℕ :=
  (answers.filter fun a => a.Redeems c h).length

/-- **What holds of the sessions and of the answers so far.** -/
structure Redemptions (c : Config) (purposeOf : ℕ → Purpose)
    (rows : Table SessionRow SessionId SessionRow.id) (answers : List Answer) : Prop where
  issued : ∀ a ∈ answers, purposeOf (c.hash a.pair.refreshToken) = .token a.number
  distinct : ∀ a ∈ answers, ∀ b ∈ answers, a.number = b.number → a = b
  newest : ∀ row ∈ rows, ∃ a, newest answers row.id = some a ∧
    row.tokenSha256 = c.hash a.pair.refreshToken
  opened : ∀ a ∈ answers, ∃ row ∈ rows, a.session = some row.id
  drawn : ∀ row ∈ rows, ∃ a ∈ answers, purposeOf row.id = .session a.number
  spent : ∀ a ∈ answers, ∀ h, a.Redeems c h →
    (∃ b ∈ answers, c.hash b.pair.refreshToken = h) ∧ ∀ row ∈ rows, row.tokenSha256 ≠ h
  once : ∀ h, redemptions c answers h ≤ 1

section

variable {rows : Table SessionRow SessionId SessionRow.id} {answers : List Answer} {a : Answer}

theorem newest_cons_self {id : SessionId} (h : a.session = some id) :
    newest (a :: answers) id = some a := List.find?_cons_of_pos (by simp [h])

theorem newest_cons_of_ne {id : SessionId} (h : a.session ≠ some id) :
    newest (a :: answers) id = newest answers id := List.find?_cons_of_neg (by simp [h])

theorem mem_of_newest {id : SessionId} (h : newest answers id = some a) :
    a ∈ answers ∧ a.session = some id :=
  ⟨List.mem_of_find?_eq_some h, by simpa using List.find?_some h⟩

theorem redemptions_cons_of_not {h : Digest} (hno : ¬ a.Redeems c h) :
    redemptions c (a :: answers) h = redemptions c answers h := by
  rw [redemptions, List.filter_cons_of_neg (by simpa using hno), redemptions]

/-- A new token differs from all that have been returned. -/
theorem Redemptions.new (H : Redemptions c purposeOf rows answers) {number : ℕ} {h : Digest}
    (hnew : ∀ a ∈ answers, a.number ≠ number) (hh : purposeOf h = .token number) :
    ∀ a ∈ answers, c.hash a.pair.refreshToken ≠ h := by
  rintro a ha rfl
  have hp := H.issued a ha
  rw [hh] at hp
  exact hnew a ha (Purpose.token.inj hp).symm

theorem Redemptions.distinct_cons (H : Redemptions c purposeOf rows answers)
    (hnew : ∀ b ∈ answers, b.number ≠ a.number) :
    ∀ x ∈ a :: answers, ∀ y ∈ a :: answers, x.number = y.number → x = y := by
  intro x hx y hy hxy
  rcases List.mem_cons.mp hx with hxa | hxold <;> rcases List.mem_cons.mp hy with hya | hyold
  · exact hxa.trans hya.symm
  · exact absurd (hxy.symm.trans (congrArg Answer.number hxa)) (hnew y hyold)
  · exact absurd (hxy.trans (congrArg Answer.number hya)) (hnew x hxold)
  · exact H.distinct x hxold y hyold hxy

/-- A login opens a session. -/
theorem Redemptions.login (H : Redemptions c purposeOf rows answers) {row : SessionRow}
    (hnew : ∀ b ∈ answers, b.number ≠ a.number) (hcall : a.call.presented = none)
    (hsession : a.session = some row.id) (hid : purposeOf row.id = .session a.number)
    (htoken : purposeOf (c.hash a.pair.refreshToken) = .token a.number)
    (hrow : row.tokenSha256 = c.hash a.pair.refreshToken) :
    Redemptions c purposeOf (rows.put row) (a :: answers) := by
  have hredeems : ∀ h, ¬ a.Redeems c h := fun h hr => by simp [Answer.Redeems, hcall] at hr
  have hold : ∀ x ∈ rows, x.id ≠ row.id := by
    intro x hx he
    obtain ⟨b, hb, hp⟩ := H.drawn x hx
    rw [he, hid] at hp
    exact hnew b hb (Purpose.session.inj hp).symm
  constructor
  · exact List.forall_mem_cons.mpr ⟨htoken, H.issued⟩
  · exact H.distinct_cons hnew
  · intro x hx
    rcases Table.mem_put.mp hx with rfl | ⟨hmem, hne⟩
    · exact ⟨a, newest_cons_self hsession, hrow⟩
    · rw [newest_cons_of_ne (by rw [hsession]; exact fun he => hne (Option.some.inj he).symm)]
      exact H.newest x hmem
  · refine List.forall_mem_cons.mpr ⟨⟨row, Table.mem_put.mpr (.inl rfl), hsession⟩, fun b hb => ?_⟩
    obtain ⟨x, hx, hbx⟩ := H.opened b hb
    exact ⟨x, Table.mem_put.mpr (.inr ⟨hx, hold x hx⟩), hbx⟩
  · intro x hx
    rcases Table.mem_put.mp hx with rfl | ⟨hmem, -⟩
    · exact ⟨a, List.mem_cons_self, hid⟩
    · obtain ⟨b, hb, hp⟩ := H.drawn x hmem
      exact ⟨b, List.mem_cons_of_mem a hb, hp⟩
  · refine List.forall_mem_cons.mpr ⟨fun h hr => absurd hr (hredeems h), fun b hb h hr => ?_⟩
    obtain ⟨⟨b', hb', hbh⟩, hrows⟩ := H.spent b hb h hr
    refine ⟨⟨b', List.mem_cons_of_mem a hb', hbh⟩, fun x hx => ?_⟩
    rcases Table.mem_put.mp hx with rfl | ⟨hmem, -⟩
    · rw [hrow, ← hbh]
      exact fun he => H.new hnew htoken b' hb' he.symm
    · exact hrows x hmem
  · intro h
    rw [redemptions_cons_of_not (hredeems h)]
    exact H.once h

/-- A refresh rotates the session that has the token. -/
theorem Redemptions.refresh (H : Redemptions c purposeOf rows answers) {row : SessionRow}
    {token : RefreshToken} {expiresAt : ℕ} (hnew : ∀ b ∈ answers, b.number ≠ a.number)
    (hcall : a.call.presented = some token) (hsession : a.session = some row.id)
    (htoken : purposeOf (c.hash a.pair.refreshToken) = .token a.number) (hrow : row ∈ rows)
    (hlive : row.tokenSha256 = c.hash token) :
    Redemptions c purposeOf
      (rows.modify row.id (fun r => { r with
        tokenSha256 := c.hash a.pair.refreshToken, expiresAt := expiresAt }) fun _ => rfl)
      (a :: answers) := by
  have hredeems : ∀ h, a.Redeems c h ↔ h = c.hash token := by
    intro h
    simp [Answer.Redeems, hcall, eq_comm]
  -- the token that is presented has been returned by the last answer of this session
  obtain ⟨b₀, hb₀, hhash⟩ := H.newest row hrow
  obtain ⟨hb₀mem, hb₀session⟩ := mem_of_newest hb₀
  have hreturned : c.hash b₀.pair.refreshToken = c.hash token := hhash.symm.trans hlive
  constructor
  · exact List.forall_mem_cons.mpr ⟨htoken, H.issued⟩
  · exact H.distinct_cons hnew
  · intro x hx
    rcases (Table.mem_modify _).mp hx with ⟨hmem, hne⟩ | ⟨r, -, hr, rfl⟩
    · rw [newest_cons_of_ne (by rw [hsession]; exact fun he => hne (Option.some.inj he).symm)]
      exact H.newest x hmem
    · exact ⟨a, newest_cons_self (hsession.trans (congrArg some hr.symm)), rfl⟩
  · have hthere : ∀ x ∈ rows, ∃ y ∈ rows.modify row.id (fun r => { r with
        tokenSha256 := c.hash a.pair.refreshToken, expiresAt := expiresAt }) fun _ => rfl,
          y.id = x.id := by
      intro x hx
      by_cases he : x.id = row.id
      · exact ⟨_, (Table.mem_modify _).mpr (.inr ⟨x, hx, he, rfl⟩), rfl⟩
      · exact ⟨x, (Table.mem_modify _).mpr (.inl ⟨hx, he⟩), rfl⟩
    refine List.forall_mem_cons.mpr ⟨?_, fun b hb => ?_⟩
    · obtain ⟨y, hy, hid⟩ := hthere row hrow
      exact ⟨y, hy, hsession.trans (congrArg some hid.symm)⟩
    · obtain ⟨x, hx, hbx⟩ := H.opened b hb
      obtain ⟨y, hy, hid⟩ := hthere x hx
      exact ⟨y, hy, hbx.trans (congrArg some hid.symm)⟩
  · intro x hx
    have hold : ∃ r ∈ rows, r.id = x.id := by
      rcases (Table.mem_modify _).mp hx with ⟨hmem, -⟩ | ⟨r, hr, -, rfl⟩
      · exact ⟨x, hmem, rfl⟩
      · exact ⟨r, hr, rfl⟩
    obtain ⟨r, hr, hid⟩ := hold
    obtain ⟨b, hb, hp⟩ := H.drawn r hr
    exact ⟨b, List.mem_cons_of_mem a hb, hid ▸ hp⟩
  · have hdead : ∀ h, (∃ b ∈ answers, c.hash b.pair.refreshToken = h) →
        (∀ x ∈ rows, x.id ≠ row.id → x.tokenSha256 ≠ h) →
          ∀ x ∈ rows.modify row.id (fun r => { r with
            tokenSha256 := c.hash a.pair.refreshToken, expiresAt := expiresAt }) fun _ => rfl,
              x.tokenSha256 ≠ h := by
      rintro h ⟨b, hb, rfl⟩ hothers x hx
      rcases (Table.mem_modify _).mp hx with ⟨hmem, hne⟩ | ⟨r, -, -, rfl⟩
      · exact hothers x hmem hne
      · exact fun he => H.new hnew htoken b hb he.symm
    refine List.forall_mem_cons.mpr ⟨fun h hr => ?_, fun b hb h hr => ?_⟩
    · obtain rfl := (hredeems h).mp hr
      refine ⟨⟨b₀, List.mem_cons_of_mem a hb₀mem, hreturned⟩, hdead _ ⟨b₀, hb₀mem, hreturned⟩ ?_⟩
      -- another session has the token of another answer
      intro x hx hne he
      obtain ⟨b, hb, hbx⟩ := H.newest x hx
      obtain ⟨hbmem, hbsession⟩ := mem_of_newest hb
      have hp := H.issued b hbmem
      rw [← hbx, he, ← hreturned, H.issued b₀ hb₀mem] at hp
      obtain rfl := H.distinct b₀ hb₀mem b hbmem (Purpose.token.inj hp)
      exact hne (Option.some.inj (hbsession.symm.trans hb₀session))
    · obtain ⟨⟨b', hb', hbh⟩, hrows⟩ := H.spent b hb h hr
      exact ⟨⟨b', List.mem_cons_of_mem a hb', hbh⟩,
        hdead h ⟨b', hb', hbh⟩ fun x hx _ => hrows x hx⟩
  · intro h
    by_cases hr : a.Redeems c h
    · -- nobody has redeemed it before
      obtain rfl := (hredeems h).mp hr
      have hnone : redemptions c answers (c.hash token) = 0 := by
        refine List.length_eq_zero_iff.mpr (List.filter_eq_nil_iff.mpr fun b hb hbr => ?_)
        exact (H.spent b hb _ (by simpa using hbr)).2 row hrow hlive
      rw [redemptions, List.filter_cons_of_pos (by simpa using hr), List.length_cons]
      exact Nat.succ_le_succ hnone.le
    · rw [redemptions_cons_of_not hr]
      exact H.once h

end

/-! ### Every interleaving -/

def Proc.number : Proc → Option ℕ
  | idle => none
  | running number _ _ _ => some number

/-- **The invariant of the calls.** -/
structure Sound (c : Config) (purposeOf : ℕ → Purpose) (s : System n) : Prop where
  redemptions : Redemptions c purposeOf s.db.refreshTokens s.answers
  issuing : ∀ pid number call p ws, s.procs pid = .running number call p ws →
    Issuing c purposeOf number call p ws
  started : ∀ pid number, (s.procs pid).number = some number → number < s.calls
  answered : ∀ a ∈ s.answers, a.number < s.calls
  pending : ∀ pid, ∀ a ∈ s.answers, (s.procs pid).number ≠ some a.number
  apart : ∀ p q number, (s.procs p).number = some number → (s.procs q).number = some number → p = q

/-- A refresh commits while the session still has the token that was presented. -/
def Unrotated (c : Config) (s : System n) : Event n → Prop
  | .run pid _ =>
    match s.procs pid with
    | .running _ (.refresh token) (.ret _) ws =>
      ∀ w ∈ ws, ∃ row ∈ s.db.refreshTokens.rows, row.id = w.session ∧
        row.tokenSha256 = c.hash token
    | _ => True
  | _ => True

theorem sound_start (accounts : Accounts) : Sound c purposeOf (System.start accounts : System n) where
  redemptions := by
    constructor
    · exact List.forall_mem_nil _
    · exact fun _ ha => absurd ha List.not_mem_nil
    · exact fun row hrow => absurd hrow List.not_mem_nil
    · exact List.forall_mem_nil _
    · exact fun row hrow => absurd hrow List.not_mem_nil
    · exact List.forall_mem_nil _
    · exact fun h => Nat.zero_le _
  issuing _ _ _ _ _ h := by cases h
  started _ _ h := by cases h
  answered := List.forall_mem_nil _
  pending _ := List.forall_mem_nil _
  apart _ _ _ h := by cases h

section

variable {pid : Fin n} {proc : Proc}

theorem procs_set_self : (s.set pid proc).procs pid = proc := Function.update_self ..

theorem procs_set_of_ne {q : Fin n} (h : q ≠ pid) : (s.set pid proc).procs q = s.procs q :=
  Function.update_of_ne h ..

/-- One call goes on, or is over. -/
theorem Sound.set (h : Sound c purposeOf s)
    (hnumber : ∀ k, proc.number = some k → (s.procs pid).number = some k)
    (hissuing : ∀ number call p ws, proc = .running number call p ws →
      Issuing c purposeOf number call p ws) : Sound c purposeOf (s.set pid proc) := by
  have hback : ∀ q k, ((s.set pid proc).procs q).number = some k →
      (s.procs q).number = some k := by
    intro q k hk
    rcases eq_or_ne q pid with rfl | hq
    · rw [procs_set_self] at hk
      exact hnumber k hk
    · rwa [procs_set_of_ne hq] at hk
  constructor
  · exact h.redemptions
  · intro q number call p ws hq
    rcases eq_or_ne q pid with rfl | hne
    · rw [procs_set_self] at hq
      exact hissuing number call p ws hq
    · rw [procs_set_of_ne hne] at hq
      exact h.issuing q number call p ws hq
  · exact fun q k hk => h.started q k (hback q k hk)
  · exact h.answered
  · exact fun q a ha hk => h.pending q a ha (hback q _ hk)
  · exact fun p q k hp hq => h.apart p q k (hback p k hp) (hback q k hq)

end

/-- **An unrotated step keeps the invariant.** -/
theorem sound_step (h : Sound c purposeOf s) (hok : Unrotated c s e)
    (hstep : step c purposeOf s e = some t) : Sound c purposeOf t := by
  cases step_cases hstep with
  | @start pid call hidle =>
    have hnumbers : ∀ q k, (((s.set pid (.running s.calls call (call.body c s.calls) [])).procs
        q).number = some k) → q = pid ∧ k = s.calls ∨ q ≠ pid ∧ (s.procs q).number = some k := by
      intro q k hk
      rcases eq_or_ne q pid with rfl | hq
      · rw [procs_set_self] at hk
        exact .inl ⟨rfl, (Option.some.inj hk).symm⟩
      · rw [procs_set_of_ne hq] at hk
        exact .inr ⟨hq, hk⟩
    constructor
    · exact h.redemptions
    · intro q number call' p ws hq
      rcases eq_or_ne q pid with rfl | hne
      · have hq : (s.set q (.running s.calls call (call.body c s.calls) [])).procs q = _ := hq
        rw [procs_set_self] at hq
        cases hq
        exact body_issues _ _
      · have hq : (s.set pid (.running s.calls call (call.body c s.calls) [])).procs q = _ := hq
        rw [procs_set_of_ne hne] at hq
        exact h.issuing q number call' p ws hq
    · intro q k hk
      rcases hnumbers q k hk with ⟨-, rfl⟩ | ⟨-, hk⟩
      · exact Nat.lt_succ_self _
      · exact Nat.lt_succ_of_lt (h.started q k hk)
    · exact fun a ha => Nat.lt_succ_of_lt (h.answered a ha)
    · intro q a ha hk
      rcases hnumbers q _ hk with ⟨-, hk⟩ | ⟨-, hk⟩
      · exact absurd (h.answered a ha) (hk ▸ Nat.lt_irrefl _)
      · exact h.pending q a ha hk
    · intro p q k hp hq
      rcases hnumbers p k hp with ⟨hpid, hk⟩ | ⟨-, hold⟩ <;>
        rcases hnumbers q k hq with ⟨hqid, hk'⟩ | ⟨-, hold'⟩
      · exact hpid.trans hqid.symm
      · exact absurd (h.started q k hold') (hk ▸ Nat.lt_irrefl _)
      · exact absurd (h.started p k hold) (hk' ▸ Nat.lt_irrefl _)
      · exact h.apart p q k hold hold'
  | @advances pid u number call p p' ws w facts hproc ha =>
    refine h.set (fun k hk => ?_) fun number' call' p'' ws' he => ?_
    · rw [hproc]
      exact hk
    · cases he
      exact ((h.issuing pid _ _ _ _ hproc).advance trivial ha).2
  | @answers pid u number call pair ws hproc =>
    have hissues := h.issuing pid _ _ _ _ hproc
    have hnumber : (s.procs pid).number = some number := by rw [hproc]; rfl
    have hnew : ∀ b ∈ s.answers, b.number ≠ number := fun b hb he =>
      h.pending pid b hb (he ▸ hnumber)
    have hset : Sound c purposeOf (s.set pid .idle) := h.set (by nofun) (by nofun)
    have hredemptions : Redemptions c purposeOf (applyAll Write.apply ws s.db).refreshTokens
        (⟨number, call, ws.head?.map Write.session, pair⟩ :: s.answers) := by
      cases call with
      | login email password =>
        obtain ⟨htoken, row, rfl, hid, hrow⟩ := hissues
        exact h.redemptions.login (a := ⟨number, .login email password, some row.id, pair⟩) hnew
          rfl rfl hid htoken hrow
      | refresh token =>
        obtain ⟨htoken, id, expiresAt, rfl⟩ := hissues
        simp only [Unrotated, hproc] at hok
        obtain ⟨row, hrow, rfl, hlive⟩ := hok _ (List.mem_singleton_self _)
        exact h.redemptions.refresh (a := ⟨number, .refresh token, some row.id, pair⟩) hnew rfl rfl
          htoken hrow hlive
    constructor
    · exact hredemptions
    · exact hset.issuing
    · exact hset.started
    · exact List.forall_mem_cons.mpr ⟨h.started pid number hnumber, h.answered⟩
    · intro q
      refine List.forall_mem_cons.mpr ⟨fun hk => ?_, hset.pending q⟩
      have hk : ((s.set pid .idle).procs q).number = some number := hk
      rcases eq_or_ne q pid with rfl | hq
      · rw [procs_set_self] at hk
        cases hk
      · rw [procs_set_of_ne hq] at hk
        exact hq (h.apart q pid number hk hnumber)
    · exact hset.apart
  | ends => exact h.set (by nofun) (by nofun)
  | administers =>
    exact ⟨h.redemptions, h.issuing, h.started, h.answered, h.pending, h.apart⟩

/-- Each session has one live token: the one that has been returned last. -/
def OneLive (c : Config) (s : System n) : Prop :=
  ∀ id, (∃ a ∈ s.answers, a.session = some id) → ∃ b, newest s.answers id = some b ∧
    ∀ a ∈ s.answers, a.session = some id →
      ((∃ row ∈ s.db.refreshTokens.rows, row.tokenSha256 = c.hash a.pair.refreshToken) ↔ a = b)

theorem Redemptions.oneLive (h : Redemptions c purposeOf s.db.refreshTokens s.answers) :
    OneLive c s := by
  rintro id ⟨a₀, ha₀, hid⟩
  obtain ⟨row, hrow, hsession⟩ := h.opened a₀ ha₀
  obtain rfl : id = row.id := Option.some.inj (hid.symm.trans hsession)
  obtain ⟨b, hb, hhash⟩ := h.newest row hrow
  obtain ⟨hbmem, hbsession⟩ := mem_of_newest hb
  refine ⟨b, hb, fun a ha hsession => ⟨?_, ?_⟩⟩
  · rintro ⟨x, hx, hxa⟩
    obtain ⟨b', hb', hxb'⟩ := h.newest x hx
    obtain ⟨hb'mem, hb'session⟩ := mem_of_newest hb'
    have hp := h.issued a ha
    rw [← hxa, hxb', h.issued b' hb'mem] at hp
    obtain rfl := h.distinct b' hb'mem a ha (Purpose.token.inj hp)
    have hxid : x.id = row.id := Option.some.inj (hb'session.symm.trans hsession)
    rw [hxid, hb] at hb'
    exact (Option.some.inj hb').symm
  · rintro rfl
    exact ⟨row, hrow, hhash⟩

/-! ### Refreshes that nobody disturbs -/

/-- The sessions that a refresh rotates as it commits. -/
def rotated (s : System n) : Event n → List SessionId
  | .run pid _ =>
    match s.procs pid with
    | .running _ (.refresh _) (.ret _) ws => ws.map Write.session
    | _ => []
  | _ => []

def watch : Watch (System n) (Event n) (Fin n) SessionId where
  begins _ := fun
    | .start pid _ => some pid
    | _ => none
  runs := fun
    | .run pid _ => some pid
    | _ => none
  commits := rotated

/-- Between the `get_refresh_by_hash` of a refresh, its first statement, and its commit no other
refresh of the session commits. -/
def Undisturbed (w : Watched (System n) (Fin n) SessionId) : Event n → Prop
  | .run pid u => ∀ id ∈ rotated w.state (.run pid u), ¬ w.Since pid 1 id
  | _ => True

instance (w : Watched (System n) (Fin n) SessionId) (e : Event n) : Decidable (Undisturbed w e) := by
  unfold Undisturbed
  split <;> infer_instance

/-- A refresh that has read its row: it has failed, or it is going to rotate that session, which
still has the token unless somebody has rotated it. -/
def Bound (c : Config) (purposeOf : ℕ → Purpose) (h : Digest) (crossed : SessionId → Prop)
    (p : Session TokenPair) (ws : List Write) (db : Db) : Prop :=
  (∃ e, p = .fail e) ∨ ∃ id,
    Ensures (Drawn c purposeOf) (fun _ => True) (fun _ => True) p
      (fun _ ws => ∃ h e, ws = [.rotate id h e]) ws ∧
    (crossed id ∨ ∃ row ∈ db.refreshTokens, row.id = id ∧ row.tokenSha256 = h)

/-- A refresh before or after its first statement. -/
def Reading (c : Config) (purposeOf : ℕ → Purpose) (w : Watched (System n) (Fin n) SessionId)
    (pid : Fin n) (token : RefreshToken) (p : Session TokenPair) (ws : List Write) : Prop :=
  After Write.apply (Drawn c purposeOf) (fun _ => False)
    (Bound c purposeOf (c.hash token) fun id => w.Since pid 1 id) (1 - w.ran pid) p ws w.state.db

theorem mem_of_refreshByHash {db : Db} {h : Digest} {row : SessionRow}
    (hrow : db.refreshByHash h = some row) : row ∈ db.refreshTokens ∧ row.tokenSha256 = h :=
  ⟨List.mem_of_find?_eq_some hrow, by simpa using List.find?_some hrow⟩

theorem ensures_issuePair {number : ℕ} {user : User} {id : SessionId} :
    Ensures (Drawn c purposeOf) (fun _ => True) (fun _ => True)
      (issuePair c number user (some id)) (fun _ ws => ∃ h e, ws = [.rotate id h e]) [] := by
  refine ensures_bind.mpr (ensures_select fun _ _ => ensures_bind.mpr (ensures_select fun _ _ => ?_))
  split
  · trivial
  intro token _ now _
  show Ensures _ _ _ (Prog.bind (rotateSession id _ _) _) _ _
  exact ensures_bind.mpr ((ensures_rotateSession c purposeOf).mono fun _ _ hws => ⟨_, _, hws⟩)

/-- What a refresh rotates is the session that its first statement has found. -/
theorem after_refresh {number : ℕ} {token : RefreshToken} {crossed : SessionId → Prop} {db : Db} :
    After Write.apply (Drawn c purposeOf) (fun _ => False)
      (Bound c purposeOf (c.hash token) crossed) 1 (refresh c number token) [] db := by
  intro db b w hb
  cases hb
  change Bound c purposeOf _ crossed _ _ _
  simp only [applyAll_nil, Prog.bind]
  split
  · exact .inl ⟨_, rfl⟩
  next row hrow =>
  obtain ⟨hmem, hhash⟩ := mem_of_refreshByHash hrow
  refine .inr ⟨row.id, fun now _ => ?_, .inr ⟨row, hmem, rfl, hhash⟩⟩
  show Ensures _ _ _ (if _ then _ else _) _ _
  split
  · trivial
  refine ensures_bind.mpr (ensures_select fun db' _ => ?_)
  split
  · trivial
  · exact ensures_issuePair

theorem Bound.mono {h : Digest} {crossed crossed' : SessionId → Prop} {p : Session TokenPair}
    {ws : List Write} {db : Db} (hb : Bound c purposeOf h crossed p ws db)
    (hc : ∀ id, crossed id → crossed' id) : Bound c purposeOf h crossed' p ws db := by
  rcases hb with hfail | ⟨id, hp, hlive⟩
  · exact .inl hfail
  · exact .inr ⟨id, hp, hlive.imp_left (hc id)⟩

/-- The rows that a commit leaves alone. -/
theorem mem_applyAll {ws : List Write} {db : Db} {row : SessionRow} (hrow : row ∈ db.refreshTokens)
    (hws : ∀ w ∈ ws, w.session ≠ row.id) :
    row ∈ (applyAll Write.apply ws db).refreshTokens := by
  refine applyAll_induction (I := fun db : Db => row ∈ db.refreshTokens)
    (W := fun w : Write => w.session ≠ row.id) (fun w db hw h => ?_) hws hrow
  cases w with
  | «open» r => exact Table.mem_put.mpr (.inr ⟨h, Ne.symm hw⟩)
  | rotate id h' e =>
    exact (Table.mem_modify (f := fun row : SessionRow =>
      { row with tokenSha256 := h', expiresAt := e }) fun _ => rfl).mpr (.inl ⟨h, Ne.symm hw⟩)

variable {w w' : Watched (System n) (Fin n) SessionId}

/-- **The lookup by hash**: an undisturbed refresh rotates a session that still has the token. -/
theorem unrotated_of_undisturbed
    (hr : ∀ pid number token p ws, w.state.procs pid = .running number (.refresh token) p ws →
      Reading c purposeOf w pid token p ws) (hok : Undisturbed w e) : Unrotated c w.state e := by
  cases e with
  | run pid u =>
    simp only [Unrotated]
    split
    · next number token pair ws hproc =>
      have hread := hr pid _ _ _ _ hproc
      simp only [Undisturbed, rotated, hproc] at hok
      rcases (After.result hread id).2 with ⟨e, he⟩ | ⟨id, ⟨h, expiresAt, rfl⟩, hlive⟩
      · cases he
      intro x hx
      obtain rfl := List.mem_singleton.mp hx
      exact hlive.resolve_left (hok id (List.mem_singleton_self _))
    · trivial
  | _ => trivial

/-- One statement of a call takes it on. -/
theorem Reading.advance {pid : Fin n} {token : RefreshToken} {p p' : Session TokenPair}
    {ws x : List Write} {facts : List (Db → Bool)} {u : ℕ}
    (h : Reading c purposeOf w pid token p ws)
    (ha : p.advance Write.apply (Drawn c purposeOf) w.state.db ws u = some (p', x, facts))
    (hran : w'.ran pid = w.ran pid + 1) (hdb : w'.state.db = w.state.db)
    (hsince : ∀ n id, w'.Since pid n id ↔ w.Since pid n id) :
    Reading c purposeOf w' pid token p' (ws ++ x) := by
  unfold Reading at h ⊢
  rw [hdb, hran]
  simp only [hsince]
  refine h.step ha ?_
  rintro (⟨e, rfl⟩ | ⟨id, hp, hlive⟩)
  · cases ha
  · exact .inr ⟨id, (hp.advance trivial ha).2, hlive⟩

/-- A call that waits, while another one moves: the rows of sessions that nobody rotates stay. -/
theorem Reading.waits {pid : Fin n} {token : RefreshToken} {p : Session TokenPair}
    {ws : List Write} (h : Reading c purposeOf w pid token p ws) (hran : w'.ran pid = w.ran pid)
    (hsince : ∀ id, w.Since pid 1 id → w'.Since pid 1 id)
    (hrows : ∀ row ∈ w.state.db.refreshTokens, row ∈ w'.state.db.refreshTokens ∨
      (1 ≤ w.ran pid → w'.Since pid 1 row.id)) :
    Reading c purposeOf w' pid token p ws := by
  unfold Reading at h ⊢
  rw [hran]
  refine h.waits (fun _ _ _ hb => hb.mono hsince) fun hone hb => ?_
  rcases hb with hfail | ⟨id, hp, hlive⟩
  · exact .inl hfail
  refine .inr ⟨id, hp, ?_⟩
  rcases hlive with hcrossed | ⟨row, hrow, rfl, hhash⟩
  · exact .inl (hsince id hcrossed)
  · rcases hrows row hrow with hstays | hcrossed
    · exact .inr ⟨row, hstays, rfl, hhash⟩
    · exact .inl (hcrossed hone)

/-- **One step of the refreshes in progress.** -/
theorem reading_step (hs : Sound c purposeOf w.state)
    (h : ∀ pid number token p ws, w.state.procs pid = .running number (.refresh token) p ws →
      Reading c purposeOf w pid token p ws)
    (hstep : watch.watched (step c purposeOf) w e = some w') {pid : Fin n} {number : ℕ}
    {token : RefreshToken} {p : Session TokenPair} {ws : List Write}
    (hproc : w'.state.procs pid = .running number (.refresh token) p ws) :
    Reading c purposeOf w' pid token p ws := by
  have hcases := step_cases (Watch.step_of_watched hstep)
  generalize ht : w'.state = t at hcases
  rw [ht] at hproc
  -- a call that waits keeps its program, and the rows stay if nothing is committed
  have hkept : ∀ q proc, q ≠ pid → (w.state.set q proc).procs pid =
      .running number (.refresh token) p ws → Reading c purposeOf w pid token p ws :=
    fun q proc hq hproc => h pid number token p ws (by rwa [← procs_set_of_ne (Ne.symm hq)])
  have hwaits : Reading c purposeOf w pid token p ws → watch.begins w.state e ≠ some pid →
      watch.runs e ≠ some pid → t.db.refreshTokens = w.state.db.refreshTokens →
        Reading c purposeOf w' pid token p ws := by
    intro hread hbegins hruns hdb
    obtain ⟨hran, hsince⟩ := Watch.waits_of_watched hstep hbegins hruns
    refine hread.waits hran (fun id hid => (hsince 1 id).mpr (.inl hid)) fun row hrow => .inl ?_
    rwa [ht, hdb]
  cases hcases with
  | @start q call hidle =>
    have hproc : (w.state.set q (.running w.state.calls call (call.body c w.state.calls) [])).procs
      pid = _ := hproc
    by_cases hq : q = pid
    · subst hq
      rw [procs_set_self] at hproc
      cases hproc
      unfold Reading
      rw [(Watch.begins_of_watched hstep rfl).1, ht]
      exact after_refresh
    · exact hwaits (hkept q _ hq hproc) (fun hb => hq (Option.some.inj hb)) nofun rfl
  | @advances q u number' call p₀ p' ws₀ x facts hp₀ ha =>
    by_cases hq : q = pid
    · subst hq
      rw [procs_set_self] at hproc
      cases hproc
      obtain ⟨hran, hsince⟩ := Watch.runs_of_watched hstep nofun rfl
      exact (h q _ _ _ _ hp₀).advance ha hran (by rw [ht]; rfl) hsince
    · exact hwaits (hkept q _ hq hproc) nofun (fun hr => hq (Option.some.inj hr)) rfl
  | @answers q u number' call pair ws₀ hp₀ =>
    have hproc : (w.state.set q .idle).procs pid = _ := hproc
    by_cases hq : q = pid
    · subst hq
      rw [procs_set_self] at hproc
      cases hproc
    obtain ⟨hran, hsince⟩ :=
      Watch.waits_of_watched hstep nofun fun hr => hq (Option.some.inj hr)
    refine (hkept q _ hq hproc).waits hran (fun id hid => (hsince 1 id).mpr (.inl hid)) ?_
    rw [ht]
    intro row hrow
    by_cases hthere : ∀ x ∈ ws₀, x.session ≠ row.id
    · exact .inl (mem_applyAll hrow hthere)
    obtain ⟨x, hx, hid⟩ : ∃ x ∈ ws₀, x.session = row.id := by simpa using hthere
    refine .inr fun hone => (hsince 1 _).mpr (.inr ⟨hone, ?_⟩)
    cases call with
    | login email password =>
      -- a login opens a session that nobody has drawn before
      obtain ⟨-, row', rfl, hnew, -⟩ := hs.issuing q _ _ _ _ hp₀
      obtain rfl := List.mem_singleton.mp hx
      obtain ⟨a, ha, hdrawn⟩ := hs.redemptions.drawn row hrow
      have hid : row'.id = row.id := hid
      rw [← hid, hnew] at hdrawn
      have hnumber : (w.state.procs q).number = some number' := by rw [hp₀]; rfl
      exact absurd (hnumber.trans (congrArg some (Purpose.session.inj hdrawn)))
        (hs.pending q a ha)
    | refresh token' =>
      show _ ∈ rotated w.state (.run q u)
      simp only [rotated, hp₀]
      exact List.mem_map.mpr ⟨x, hx, hid⟩
  | @ends q e he =>
    by_cases hq : q = pid
    · subst hq
      rw [procs_set_self] at hproc
      cases hproc
    · refine hwaits (hkept q _ hq hproc) ?_ ?_ rfl
      · rcases he with rfl | ⟨u, rfl⟩ <;> nofun
      · rcases he with rfl | ⟨u, rfl⟩
        · nofun
        · exact fun hr => hq (Option.some.inj hr)
  | administers => exact hwaits (h pid number token p ws hproc) nofun nofun rfl

/-- **As long as no other refresh of a session commits between the lookup of a refresh and its
commit, a token is redeemed at most once, and the live token of a session is the one that has been
returned last.** -/
theorem redeemed_of_run {accounts : Accounts} {es : List (Event n)}
    (h : Run (watch.watched (step c purposeOf)) Undisturbed (.start (.start accounts)) es w) :
    (∀ token, redemptions c w.state.answers (c.hash token) ≤ 1) ∧ OneLive c w.state := by
  have hs : Sound c purposeOf w.state ∧ ∀ pid number token p ws,
      w.state.procs pid = .running number (.refresh token) p ws →
        Reading c purposeOf w pid token p ws := by
    refine h.invariant (I := fun w => Sound c purposeOf w.state ∧ ∀ pid number token p ws,
      w.state.procs pid = .running number (.refresh token) p ws →
        Reading c purposeOf w pid token p ws) ⟨sound_start accounts, nofun⟩ ?_
    rintro w e w' ⟨hI, hr⟩ hok hstep
    exact ⟨sound_step hI (unrotated_of_undisturbed hr hok) (Watch.step_of_watched hstep),
      fun _ _ _ _ _ => reading_step hI hr hstep⟩
  exact ⟨fun token => hs.1.redemptions.once _, hs.1.redemptions.oneLive⟩

/-! ### Runs -/

/-- Tokens are their own hashes, and a user's password hash is the password. -/
def demoConfig : Config where
  hash := id
  verifyPassword := fun h p => h = p
  accessTtlSeconds := 900
  refreshTtl := 30

def demoAccounts : Accounts where
  users := [⟨"usr_1", "ann@example.com", "pw"⟩]
  roles := [("usr_1", "customer")]
  owners := []

/-- The first call opens session 10 with token 100; the others draw 101 and 102. -/
def demoPurposes : ℕ → Purpose
  | 10 => .session 0
  | 100 => .token 0
  | 101 => .token 1
  | 102 => .token 2
  | _ => .now

def signIn : List (Event 2) :=
  [.start p₀ (.login "ann@example.com" "pw"), .run p₀ 0, .run p₀ 0, .run p₀ 0, .run p₀ 100,
    .run p₀ 5, .run p₀ 10, .run p₀ 0, .run p₀ 0]

/-- A refresh of token 100 up to its read of the row, and the rest of it. -/
def reading (pid : Fin 2) : List (Event 2) := [.start pid (.refresh 100), .run pid 0]

def rotating (pid : Fin 2) (token : ℕ) : List (Event 2) :=
  [.run pid 6, .run pid 0, .run pid 0, .run pid 0, .run pid token, .run pid 6, .run pid 0,
    .run pid 0]

/-- Two refreshes of one token have begun; the second one looks for it when the first one has
committed, and finds no row. -/
def repeated : List (Event 2) :=
  signIn ++ [.start p₁ (.refresh 100)] ++ reading p₀ ++ rotating p₀ 102 ++ [.run p₁ 0, .run p₁ 0]

theorem redeemed_of_repeated : ∃ w : Watched (System 2) (Fin 2) SessionId,
    Run (watch.watched (step demoConfig demoPurposes)) Undisturbed (.start (.start demoAccounts))
      repeated w ∧ redemptions demoConfig w.state.answers 100 = 1 ∧
        (∀ token, redemptions demoConfig w.state.answers (demoConfig.hash token) ≤ 1) ∧
          OneLive demoConfig w.state := by
  obtain ⟨w, hrun, hp⟩ : ∃ w : Watched (System 2) (Fin 2) SessionId,
      Run (watch.watched (step demoConfig demoPurposes)) Undisturbed (.start (.start demoAccounts))
        repeated w ∧ decide (redemptions demoConfig w.state.answers 100 = 1) = true :=
    exists_run_of_execOk (by decide +kernel)
  exact ⟨w, hrun, of_decide_eq_true hp, redeemed_of_run hrun⟩

/-- Both have read the row before either rotates it. -/
def raced : List (Event 2) :=
  signIn ++ reading p₀ ++ reading p₁ ++ rotating p₀ 101 ++ rotating p₁ 102

/-- **Two refreshes of one token can both succeed.** -/
theorem redeemed_twice : ¬ ∀ (c : Config) (purposeOf : ℕ → Purpose) (n : ℕ) (accounts : Accounts)
    (es : List (Event n)) (s : System n), Run (step c purposeOf) Always (.start accounts) es s →
      (∀ token, redemptions c s.answers (c.hash token) ≤ 1) ∧ OneLive c s := by
  intro h
  obtain ⟨s, hrun, hp⟩ : ∃ s : System 2, Run (step demoConfig demoPurposes) Always
      (.start demoAccounts) raced s ∧ decide (redemptions demoConfig s.answers 100 = 2) = true :=
    exists_run_of_execOk (by decide +kernel)
  have honce := (h _ _ _ _ _ s hrun).1 100
  have htwice : redemptions demoConfig s.answers (demoConfig.hash 100) = 2 := of_decide_eq_true hp
  omega

end Identity
