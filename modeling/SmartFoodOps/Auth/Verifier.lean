/-
smartfood-auth: the verification of tokens against a cached key set.

* `Library` — what the token library does: the header of a token, a key of a document, decoding;
* `keysOf`, `finish` — the keys of a fetched document, and the end of `verify`;
* `Fetches` — when `verify` stops to fetch the document;
* `System`, `step` — calls of `verify` that interleave where they wait, on a clock that does not go
  back; a fetch succeeds or fails, and a call may be cancelled while it waits;
* `Guarded` — what bad tokens must not do, and what good tokens can rely on;
* `guarded_iff_clear` — a run keeps to it exactly when each of its steps is `Clear`.

The clock is the monotonic one; `wall` is the one that expiry dates are compared with.
-/
import SmartFoodOps.Lib.Machine
import SmartFoodOps.Lib.Dict
import Mathlib.Algebra.Order.Ring.Rat

open Machine

namespace Auth.Verifier

/-! ### Tokens and keys -/

/-- The header of a token that nobody has verified. -/
structure Header where
  alg : Option String
  kid : Option String
  deriving DecidableEq

/-- An entry of a key set; the token library reads the rest of it. -/
structure Jwk (J : Type) where
  kty : Option String
  kid : Option String
  rest : J
  deriving DecidableEq

/-- The token library, for tokens `τ`, keys `κ` and claims `γ`; an error is an InvalidTokenError,
but for `fromJwk`. -/
structure Library (J τ κ γ : Type) where
  getUnverifiedHeader : τ → Except String Header
  fromJwk : Jwk J → Except String κ
  decode : (wall : ℤ) → (algorithms : List String) → (issuer audience : String) → κ → τ →
    Except String γ

structure Config where
  issuer : String
  audience : String
  cacheTtl : ℚ := 600
  minRefetchInterval : ℚ := 5

variable {J τ κ γ : Type}

abbrev Keys (κ : Type) := Dict String κ

/-- What `_refresh` makes of a document: every RSA key under its `kid`, or an exception. -/
def keysOf (lib : Library J τ κ γ) (doc : Option (List (Jwk J))) : Except String (Keys κ) := do
  let entries ← ((doc.getD []).filter fun k => k.kty = some "RSA").mapM fun k =>
    match k.kid with
    | none => throw "KeyError"
    | some kid => do return (kid, ← lib.fromJwk k)
  return Dict.gather Prod.fst (fun e _ => e.2) entries

inductive Outcome (γ : Type)
  | claims (c : γ)
  /-- An InvalidTokenError. -/
  | invalid (reason : String)
  /-- What `_refresh` has raised. -/
  | raised (error : String)
  deriving DecidableEq

/-- `verify`, from the lookup of the key on. -/
def finish (lib : Library J τ κ γ) (cfg : Config) (keys : Keys κ) (wall : ℤ) (kid : String)
    (token : τ) : Outcome γ :=
  match keys.get kid with
  | none => .invalid "unknown kid"
  | some key =>
    match lib.decode wall ["RS256"] cfg.issuer cfg.audience key token with
    | .ok c => .claims c
    | .error reason => .invalid reason

/-- What `verify` reads before it looks at the cache: the `kid`. -/
def kidOf (lib : Library J τ κ γ) (token : τ) : Except String String := do
  let header ← lib.getUnverifiedHeader token
  if header.alg ≠ some "RS256" then throw "unexpected alg"
  match header.kid with
  | none => throw "missing kid"
  | some kid => return kid

/-! ### The system -/

/-- A call that waits for the document, and when it has asked for it. -/
structure Waiting (τ : Type) where
  token : τ
  kid : String
  start : ℚ
  deriving DecidableEq

/-- A call that has ended, with the keys that were cached then. -/
structure Ended (τ κ γ : Type) where
  token : τ
  wall : ℤ
  keys : Keys κ
  outcome : Outcome γ

structure System (τ κ γ : Type) where
  keys : Keys κ
  fetchedAt : ℚ
  waiting : List (Waiting τ)
  /-- The last reading of the clock. -/
  now : ℚ
  /-- When fetches have started, newest first. -/
  starts : List ℚ
  /-- Those of them that have failed, or whose call has been cancelled. -/
  lost : List ℚ
  /-- The key sets that have been fetched. -/
  fetched : List (Keys κ)
  ended : List (Ended τ κ γ)

def System.start (now : ℚ) : System τ κ γ where
  keys := Dict.empty
  fetchedAt := 0
  waiting := []
  now := now
  starts := []
  lost := []
  fetched := []
  ended := []

inductive Label (J τ : Type)
  /-- A call, with its readings of the clock: for `_stale` and for the clamp. -/
  | verify (token : τ) (read clamp : ℚ) (wall : ℤ)
  /-- The document comes for a call that waits. -/
  | respond (i : ℕ) (doc : Option (List (Jwk J))) (read : ℚ) (wall : ℤ)
  /-- The request fails, or is answered with an error. -/
  | fail (i : ℕ) (error : String) (wall : ℤ)
  | cancel (i : ℕ)

/-- `_stale`. -/
def stale (cfg : Config) (fetchedAt read : ℚ) : Bool := cfg.cacheTtl < read - fetchedAt

/-- The call asks for the document: its key is not cached or the cache is stale, and the last success
is long enough ago. -/
def Fetches (cfg : Config) (s : System τ κ γ) (kid : String) (read clamp : ℚ) : Prop :=
  (s.keys.get kid = none ∨ stale cfg s.fetchedAt read = true) ∧
    cfg.minRefetchInterval ≤ clamp - s.fetchedAt

instance (cfg : Config) (s : System τ κ γ) (kid : String) (read clamp : ℚ) :
    Decidable (Fetches cfg s kid read clamp) :=
  haveI : Decidable (s.keys.get kid = none) := decidable_of_iff _ Option.isNone_iff_eq_none
  inferInstanceAs (Decidable ((_ ∨ _) ∧ _))

def System.finished (s : System τ κ γ) (token : τ) (wall : ℤ) (outcome : Outcome γ) :
    System τ κ γ :=
  { s with ended := ⟨token, wall, s.keys, outcome⟩ :: s.ended }

/-- The call no longer waits, and its fetch has come to nothing. -/
def System.lose (s : System τ κ γ) (i : ℕ) (w : Waiting τ) : System τ κ γ :=
  { s with waiting := s.waiting.eraseIdx i, lost := w.start :: s.lost }

def step (lib : Library J τ κ γ) (cfg : Config) (s : System τ κ γ) :
    Label J τ → Option (System τ κ γ)
  | .verify token read clamp wall =>
    if s.now ≤ read ∧ read ≤ clamp then
      match kidOf lib token with
      | .error reason => some ({ s with now := clamp }.finished token wall (.invalid reason))
      | .ok kid =>
        if Fetches cfg s kid read clamp then
          some { s with
            now := clamp
            waiting := ⟨token, kid, clamp⟩ :: s.waiting
            starts := clamp :: s.starts }
        else
          some ({ s with now := clamp }.finished token wall (finish lib cfg s.keys wall kid token))
    else none
  | .respond i doc read wall =>
    match s.waiting[i]? with
    | none => none
    | some w =>
      if s.now ≤ read then
        match keysOf lib doc with
        | .error e => some ((s.lose i w).finished w.token wall (.raised e))
        | .ok keys =>
          some ({ s with
            keys := keys
            fetchedAt := read
            now := read
            waiting := s.waiting.eraseIdx i
            fetched := keys :: s.fetched }.finished w.token wall
              (finish lib cfg keys wall w.kid w.token))
      else none
  | .fail i e wall =>
    match s.waiting[i]? with
    | none => none
    | some w => some ((s.lose i w).finished w.token wall (.raised e))
  | .cancel i =>
    match s.waiting[i]? with
    | none => none
    | some w => some (s.lose i w)

/-! ### What is asked of it -/

/-- The key set has the key of the token, and accepts it. -/
def Signed (lib : Library J τ κ γ) (cfg : Config) (keys : Keys κ) (wall : ℤ) (token : τ) (c : γ) :
    Prop :=
  ∃ kid key, kidOf lib token = .ok kid ∧ keys.get kid = some key ∧
    lib.decode wall ["RS256"] cfg.issuer cfg.audience key token = .ok c

structure Guarded (lib : Library J τ κ γ) (cfg : Config) (s : System τ κ γ) : Prop where
  /-- Fetches do not follow each other too closely. -/
  apart : s.starts.Pairwise fun later earlier => cfg.minRefetchInterval ≤ later - earlier
  /-- What the last fetched set accepts is accepted. -/
  accepts : ∀ e ∈ s.ended, ∀ c, Signed lib cfg e.keys e.wall e.token c → e.outcome = .claims c
  /-- And nothing is that no fetched set accepts. -/
  trusted : ∀ e ∈ s.ended, ∀ c, e.outcome = .claims c →
    ∃ keys ∈ s.fetched, Signed lib cfg keys e.wall e.token c

/-- A fetch is not asked for while one that has failed, was given up or is on its way is younger than
the interval, and no fetch fails that a token of a cached key waits for. -/
def Clear (lib : Library J τ κ γ) (cfg : Config) (s : System τ κ γ) : Label J τ → Prop
  | .verify token read clamp _ => ∀ kid, kidOf lib token = .ok kid → Fetches cfg s kid read clamp →
    (∀ w ∈ s.waiting, cfg.minRefetchInterval ≤ clamp - w.start) ∧
      ∀ start ∈ s.lost, cfg.minRefetchInterval ≤ clamp - start
  | .respond i doc _ wall => ∀ w, s.waiting[i]? = some w → (∃ e, keysOf lib doc = .error e) →
    ∀ c, ¬ Signed lib cfg s.keys wall w.token c
  | .fail i _ wall => ∀ w, s.waiting[i]? = some w → ∀ c, ¬ Signed lib cfg s.keys wall w.token c
  | .cancel _ => True

variable {lib : Library J τ κ γ} {cfg : Config} {s t : System τ κ γ} {l : Label J τ} {token : τ}
  {kid : String} {keys : Keys κ} {wall : ℤ} {c : γ} {o : Outcome γ} {w : Waiting τ} {i : ℕ}

theorem finish_eq_claims (hk : kidOf lib token = .ok kid) :
    finish lib cfg keys wall kid token = .claims c ↔ Signed lib cfg keys wall token c := by
  unfold finish
  constructor
  · intro h
    split at h
    · cases h
    · next key hkey =>
      split at h
      · next c' hc =>
        cases h
        exact ⟨kid, key, hk, hkey, hc⟩
      · cases h
  · rintro ⟨kid', key, hk', hkey, hc⟩
    obtain rfl := Except.ok.inj (hk.symm.trans hk')
    rw [hkey]
    dsimp only
    rw [hc]

/-! ### Invariants -/

/-- What holds of every state. -/
structure Booked (lib : Library J τ κ γ) (cfg : Config) (s : System τ κ γ) : Prop where
  /-- A fetch is on its way, lost, or not younger than the cached keys. -/
  starts : ∀ st ∈ s.starts, (∃ w ∈ s.waiting, w.start = st) ∨ st ∈ s.lost ∨ st ≤ s.fetchedAt
  past : ∀ st ∈ s.starts, st ≤ s.now
  waiting : ∀ w ∈ s.waiting, w.start ∈ s.starts ∧ kidOf lib w.token = .ok w.kid
  lost : ∀ st ∈ s.lost, st ∈ s.starts
  cached : ∀ kid key, s.keys.get kid = some key → s.keys ∈ s.fetched
  trusted : ∀ e ∈ s.ended, ∀ c, e.outcome = .claims c →
    ∃ keys ∈ s.fetched, Signed lib cfg keys e.wall e.token c

theorem Booked.finished (hb : Booked lib cfg s)
    (ho : ∀ c, o = .claims c → Signed lib cfg s.keys wall token c) :
    Booked lib cfg (s.finished token wall o) := by
  refine ⟨hb.starts, hb.past, hb.waiting, hb.lost, hb.cached, fun e he c hc => ?_⟩
  rcases List.mem_cons.mp he with rfl | he
  · obtain ⟨kid, key, hk, hkey, hdecode⟩ := ho c hc
    exact ⟨s.keys, hb.cached kid key hkey, kid, key, hk, hkey, hdecode⟩
  · exact hb.trusted e he c hc

theorem Booked.lose (hb : Booked lib cfg s) (hw : s.waiting[i]? = some w) :
    Booked lib cfg (s.lose i w) := by
  have hmem : w ∈ s.waiting := List.mem_of_getElem? hw
  refine ⟨fun st hst => ?_, hb.past, fun w' hw' => hb.waiting w' (List.mem_of_mem_eraseIdx hw'),
    fun st hst => ?_, hb.cached, hb.trusted⟩
  · rcases hb.starts st hst with ⟨w', hw', rfl⟩ | hlost | hle
    · -- it still waits, or it is the one
      rcases List.mem_iff_getElem?.mp hw' with ⟨j, hj⟩
      by_cases hji : j = i
      · subst hji
        obtain rfl := Option.some.inj (hw.symm.trans hj)
        exact .inr (.inl List.mem_cons_self)
      · exact .inl ⟨w', List.mem_eraseIdx_iff_getElem?.mpr ⟨j, hji, hj⟩, rfl⟩
    · exact .inr (.inl (List.mem_cons_of_mem _ hlost))
    · exact .inr (.inr hle)
  · rcases List.mem_cons.mp hst with rfl | hst
    · exact (hb.waiting w hmem).1
    · exact hb.lost st hst

theorem Booked.tick (hb : Booked lib cfg s) {now : ℚ} (hle : s.now ≤ now) :
    Booked lib cfg { s with now := now } :=
  ⟨hb.starts, fun st hst => (hb.past st hst).trans hle, hb.waiting, hb.lost, hb.cached, hb.trusted⟩

theorem Booked.fetch (hb : Booked lib cfg s) {now : ℚ} (hle : s.now ≤ now)
    (hk : kidOf lib token = .ok kid) : Booked lib cfg { s with
      now := now, waiting := ⟨token, kid, now⟩ :: s.waiting, starts := now :: s.starts } := by
  refine ⟨fun st hst => ?_, fun st hst => ?_, fun w hw => ?_,
    fun st hst => List.mem_cons_of_mem _ (hb.lost st hst), hb.cached, hb.trusted⟩
  · rcases List.mem_cons.mp hst with rfl | hst
    · exact .inl ⟨_, List.mem_cons_self, rfl⟩
    · exact (hb.starts st hst).imp_left fun ⟨w, hw, h⟩ => ⟨w, List.mem_cons_of_mem _ hw, h⟩
  · rcases List.mem_cons.mp hst with rfl | hst
    · exact le_refl _
    · exact (hb.past st hst).trans hle
  · rcases List.mem_cons.mp hw with rfl | hw
    · exact ⟨List.mem_cons_self, hk⟩
    · exact (hb.waiting w hw).imp_left (List.mem_cons_of_mem _)

/-- A success is younger than all that has been started. -/
theorem Booked.fetched (hb : Booked lib cfg s) {read : ℚ} (hle : s.now ≤ read) (i : ℕ)
    (keys : Keys κ) : Booked lib cfg { s with
      keys := keys, fetchedAt := read, now := read, waiting := s.waiting.eraseIdx i
      fetched := keys :: s.fetched } := by
  have hpast : ∀ st ∈ s.starts, st ≤ read := fun st hst => (hb.past st hst).trans hle
  refine ⟨fun st hst => .inr (.inr (hpast st hst)), hpast,
    fun w hw => hb.waiting w (List.mem_of_mem_eraseIdx hw), hb.lost,
    fun _ _ _ => List.mem_cons_self, fun e he c hc => ?_⟩
  obtain ⟨keys', hmem, hs⟩ := hb.trusted e he c hc
  exact ⟨keys', List.mem_cons_of_mem _ hmem, hs⟩

/-! ### Steps -/

/-- The steps, one by one. -/
inductive Steps (lib : Library J τ κ γ) (cfg : Config) (s : System τ κ γ) :
    Label J τ → System τ κ γ → Prop
  | reject {token : τ} {read clamp : ℚ} {wall : ℤ} {reason : String} :
      s.now ≤ clamp → kidOf lib token = .error reason →
      Steps lib cfg s (.verify token read clamp wall)
        ({ s with now := clamp }.finished token wall (.invalid reason))
  | fetch {token : τ} {read clamp : ℚ} {wall : ℤ} {kid : String} :
      s.now ≤ clamp → kidOf lib token = .ok kid →
      Fetches cfg s kid read clamp →
      Steps lib cfg s (.verify token read clamp wall) { s with
        now := clamp
        waiting := ⟨token, kid, clamp⟩ :: s.waiting
        starts := clamp :: s.starts }
  | answer {token : τ} {read clamp : ℚ} {wall : ℤ} {kid : String} :
      s.now ≤ clamp → kidOf lib token = .ok kid →
      ¬ Fetches cfg s kid read clamp →
      Steps lib cfg s (.verify token read clamp wall)
        ({ s with now := clamp }.finished token wall (finish lib cfg s.keys wall kid token))
  | garbage {i : ℕ} {doc : Option (List (Jwk J))} {read : ℚ} {wall : ℤ} {w : Waiting τ}
      {e : String} : s.waiting[i]? = some w → keysOf lib doc = .error e →
      Steps lib cfg s (.respond i doc read wall) ((s.lose i w).finished w.token wall (.raised e))
  | respond {i : ℕ} {doc : Option (List (Jwk J))} {read : ℚ} {wall : ℤ} {w : Waiting τ}
      {keys : Keys κ} : s.waiting[i]? = some w → s.now ≤ read →
      keysOf lib doc = .ok keys →
      Steps lib cfg s (.respond i doc read wall) ({ s with
        keys := keys
        fetchedAt := read
        now := read
        waiting := s.waiting.eraseIdx i
        fetched := keys :: s.fetched }.finished w.token wall (finish lib cfg keys wall w.kid w.token))
  | fail {i : ℕ} {e : String} {wall : ℤ} {w : Waiting τ} : s.waiting[i]? = some w →
      Steps lib cfg s (.fail i e wall) ((s.lose i w).finished w.token wall (.raised e))
  | cancel {i : ℕ} {w : Waiting τ} : s.waiting[i]? = some w → Steps lib cfg s (.cancel i) (s.lose i w)

theorem steps_of_step (h : step lib cfg s l = some t) : Steps lib cfg s l t := by
  cases l with
  | verify token read clamp wall =>
    simp only [step] at h
    split at h
    · next hclock =>
      have hnow : s.now ≤ clamp := hclock.1.trans hclock.2
      split at h
      · next hk =>
        cases h
        exact .reject hnow hk
      · next hk =>
        split at h
        · next hf =>
          cases h
          exact .fetch hnow hk hf
        · next hf =>
          cases h
          exact .answer hnow hk hf
    · cases h
  | respond i doc read wall =>
    simp only [step] at h
    split at h
    · cases h
    · next hw =>
      split at h
      · next hnow =>
        split at h
        · next hd =>
          cases h
          exact .garbage hw hd
        · next hd =>
          cases h
          exact .respond hw hnow hd
      · cases h
  | fail i e wall =>
    simp only [step] at h
    split at h
    · cases h
    · next hw =>
      cases h
      exact .fail hw
  | cancel i =>
    simp only [step] at h
    split at h
    · cases h
    · next hw =>
      cases h
      exact .cancel hw

theorem booked_step (hb : Booked lib cfg s) (h : step lib cfg s l = some t) : Booked lib cfg t := by
  have hraised : ∀ {i w e wall}, s.waiting[i]? = some w →
      Booked lib cfg ((s.lose i w).finished w.token wall (.raised e)) := fun hw =>
    (hb.lose hw).finished fun c hc => by cases hc
  cases steps_of_step h with
  | reject hnow hk => exact (hb.tick hnow).finished fun c hc => by cases hc
  | fetch hnow hk hf => exact hb.fetch hnow hk
  | answer hnow hk hf => exact (hb.tick hnow).finished fun c hc => (finish_eq_claims hk).mp hc
  | garbage hw hd => exact hraised hw
  | respond hw hnow hd =>
    refine (hb.fetched hnow _ _).finished fun c hc => ?_
    exact (finish_eq_claims (hb.waiting _ (List.mem_of_getElem? hw)).2).mp hc
  | fail hw => exact hraised hw
  | cancel hw => exact hb.lose hw

/-- What is left to ask, where nothing is accepted that should not be. -/
theorem guarded_iff_of_booked (hb : Booked lib cfg s) : Guarded lib cfg s ↔
    (s.starts.Pairwise fun later earlier => cfg.minRefetchInterval ≤ later - earlier) ∧
      ∀ e ∈ s.ended, ∀ c, Signed lib cfg e.keys e.wall e.token c → e.outcome = .claims c :=
  ⟨fun h => ⟨h.apart, h.accepts⟩, fun h => ⟨h.1, h.2, hb.trusted⟩⟩

/-- A fetch keeps its distance from all before it, if it does from those that are not settled. -/
theorem apart_iff (hb : Booked lib cfg s) {read clamp : ℚ} (hf : Fetches cfg s kid read clamp) :
    (∀ st ∈ s.starts, cfg.minRefetchInterval ≤ clamp - st) ↔
      (∀ w ∈ s.waiting, cfg.minRefetchInterval ≤ clamp - w.start) ∧
        ∀ st ∈ s.lost, cfg.minRefetchInterval ≤ clamp - st := by
  constructor
  · exact fun h => ⟨fun w hw => h _ (hb.waiting w hw).1, fun st hst => h _ (hb.lost st hst)⟩
  · rintro ⟨hwaiting, hlost⟩ st hst
    rcases hb.starts st hst with ⟨w, hw, rfl⟩ | hst | hle
    · exact hwaiting w hw
    · exact hlost st hst
    · exact hf.2.trans (sub_le_sub_left hle clamp)

theorem guarded_step_iff (hb : Booked lib cfg s) (h : step lib cfg s l = some t) :
    Guarded lib cfg t ↔ Guarded lib cfg s ∧ Clear lib cfg s l := by
  rw [guarded_iff_of_booked (booked_step hb h), guarded_iff_of_booked hb]
  -- a call that ends asks for no more than its own acceptance
  have hend : ∀ {token : τ} {wall : ℤ} {keys : Keys κ} {o : Outcome γ} {P : Prop},
      ((∀ c, Signed lib cfg keys wall token c → o = .claims c) ↔ P) →
      (((s.starts.Pairwise fun later earlier => cfg.minRefetchInterval ≤ later - earlier) ∧
        ∀ e ∈ (⟨token, wall, keys, o⟩ : Ended τ κ γ) :: s.ended, ∀ c,
          Signed lib cfg e.keys e.wall e.token c → e.outcome = .claims c) ↔
      ((s.starts.Pairwise fun later earlier => cfg.minRefetchInterval ≤ later - earlier) ∧
        ∀ e ∈ s.ended, ∀ c, Signed lib cfg e.keys e.wall e.token c → e.outcome = .claims c) ∧ P) := by
    intro token wall keys o P hP
    rw [List.forall_mem_cons, and_assoc]
    exact and_congr_right fun _ => (and_congr_left' hP).trans and_comm
  have hfalse : ∀ {token : τ} {wall : ℤ} {e : String},
      (∀ c, Signed lib cfg s.keys wall token c → Outcome.raised e = .claims c) ↔
        ∀ c, ¬ Signed lib cfg s.keys wall token c :=
    forall_congr' fun c => imp_congr_right fun _ => ⟨fun h => (by cases h), False.elim⟩
  cases steps_of_step h with
  | reject hnow hk =>
    refine hend ⟨fun _ kid hk' => ?_, fun _ c hs => ?_⟩
    · cases hk.symm.trans hk'
    · obtain ⟨kid, key, hk', -⟩ := hs
      cases hk.symm.trans hk'
  | fetch hnow hk hf =>
    rw [List.pairwise_cons, apart_iff hb hf, and_assoc, and_comm]
    refine and_congr_right fun _ => ⟨fun hclear kid hk' _ => ?_, fun hclear => hclear _ hk hf⟩
    exact hclear
  | answer hnow hk hf =>
    refine hend ⟨fun _ kid hk' hf' => ?_, fun _ c hs => (finish_eq_claims hk).mpr hs⟩
    obtain rfl := Except.ok.inj (hk.symm.trans hk')
    exact absurd hf' hf
  | garbage hw hd =>
    refine hend (hfalse.trans ⟨fun h w' hw' _ => ?_, fun h => h _ hw ⟨_, hd⟩⟩)
    obtain rfl := Option.some.inj (hw.symm.trans hw')
    exact h
  | respond hw hnow hd =>
    have hk := (hb.waiting _ (List.mem_of_getElem? hw)).2
    refine hend ⟨fun _ w' _ ⟨e, he⟩ => ?_, fun _ c hs => (finish_eq_claims hk).mpr hs⟩
    cases hd.symm.trans he
  | fail hw =>
    refine hend (hfalse.trans ⟨fun h w' hw' => ?_, fun h => h _ hw⟩)
    obtain rfl := Option.some.inj (hw.symm.trans hw')
    exact h
  | cancel hw => exact (and_true _).to_iff.symm

/-! ### Runs -/

theorem booked_of_run {now : ℚ} {ls : List (Label J τ)}
    (h : Run (step lib cfg) Always (.start now) ls s) : Booked lib cfg s := by
  have hstart : Booked lib cfg (.start now) :=
    ⟨List.forall_mem_nil _, List.forall_mem_nil _, List.forall_mem_nil _, List.forall_mem_nil _,
      fun _ _ h => (by cases h), List.forall_mem_nil _⟩
  exact h.invariant (I := Booked lib cfg) hstart fun _ _ _ hb _ hs => booked_step hb hs

/-- **Whether bad tokens drive fetches, and good ones are turned away**: a run keeps from it exactly
when each of its steps is clear. -/
theorem guarded_iff_clear {now : ℚ} {ls : List (Label J τ)}
    (h : Run (step lib cfg) Always (.start now) ls s) :
    Guarded lib cfg s ↔ Run (step lib cfg) (Clear lib cfg) (.start now) ls s := by
  constructor
  · intro hg
    induction h with
    | nil => exact .nil
    | snoc hrun _ hs ih =>
      obtain ⟨hbefore, hclear⟩ := (guarded_step_iff (booked_of_run hrun) hs).mp hg
      exact .snoc (ih hbefore) hclear hs
  · intro hrun
    clear h
    induction hrun with
    | nil => exact ⟨.nil, List.forall_mem_nil _, List.forall_mem_nil _⟩
    | snoc hrun hclear hs ih =>
      exact (guarded_step_iff (booked_of_run hrun.forget) hs).mpr ⟨ih, hclear⟩

instance (lib : Library J τ κ γ) (cfg : Config) (keys : Keys κ) (wall : ℤ) (token : τ) :
    Decidable (∀ c, ¬ Signed lib cfg keys wall token c) :=
  match hk : kidOf lib token with
  | .error _ => isTrue fun _ ⟨_, _, h, _⟩ => nomatch hk.symm.trans h
  | .ok kid =>
    match hf : finish lib cfg keys wall kid token with
    | .claims c => isFalse fun h => h c ((finish_eq_claims hk).mp hf)
    | .invalid _ => isTrue fun _ hc => nomatch hf.symm.trans ((finish_eq_claims hk).mpr hc)
    | .raised _ => isTrue fun _ hc => nomatch hf.symm.trans ((finish_eq_claims hk).mpr hc)

instance (lib : Library J τ κ γ) (cfg : Config) (s : System τ κ γ) (l : Label J τ) :
    Decidable (Clear lib cfg s l) :=
  match l with
  | .verify token read clamp _ =>
    match hk : kidOf lib token with
    | .error _ => isTrue fun _ h => nomatch hk.symm.trans h
    | .ok kid => decidable_of_iff (Fetches cfg s kid read clamp →
        (∀ w ∈ s.waiting, cfg.minRefetchInterval ≤ clamp - w.start) ∧
          ∀ start ∈ s.lost, cfg.minRefetchInterval ≤ clamp - start)
        ⟨fun h _ h' => Except.ok.inj (hk.symm.trans h') ▸ h, fun h => h kid hk⟩
  | .respond i doc _ wall =>
    haveI : Decidable (∃ e, keysOf lib doc = .error e) :=
      match keysOf lib doc with
      | .error e => isTrue ⟨e, rfl⟩
      | .ok _ => isFalse fun ⟨_, h'⟩ => nomatch h'
    inferInstanceAs (Decidable (∀ w ∈ s.waiting[i]?, _ → ∀ c, ¬ Signed lib cfg s.keys wall w.token c))
  | .fail i _ wall =>
    inferInstanceAs (Decidable (∀ w ∈ s.waiting[i]?, ∀ c, ¬ Signed lib cfg s.keys wall w.token c))
  | .cancel _ => isTrue trivial

/-! ### An endpoint that is down -/

/-- Tokens are a `kid` and the number of the key that has signed them. -/
def plain : Library ℕ (String × ℕ) ℕ ℕ where
  getUnverifiedHeader token := .ok ⟨some "RS256", some token.1⟩
  fromJwk k := .ok k.rest
  decode _ _ _ _ key token :=
    if key = token.2 then .ok key else .error "Signature verification failed"

def edge : Config := { issuer := "https://identity.test", audience := "sfo-api" }

/-- Two forged tokens, a second apart. -/
def down : List (Label ℕ (String × ℕ)) :=
  [.verify ("forged", 9) 100 100 0, .fail 0 "ConnectError" 0, .verify ("forged", 9) 101 101 0]

/-- A good token, and the same one when the cache has got stale. -/
def late : List (Label ℕ (String × ℕ)) :=
  [.verify ("k1", 1) 100 100 0, .respond 0 (some [⟨some "RSA", some "k1", 1⟩]) 100 0,
    .verify ("k1", 1) 701 701 0, .fail 0 "ConnectError" 0]

theorem too_close : ¬ edge.minRefetchInterval ≤ 101 - 100 := by decide +kernel

/-- The second fetch starts a second after the first one. -/
theorem exists_run_down : ∃ s, Run (step plain edge) Always (.start 0) down s ∧
    s.starts = [101, 100] := by
  obtain ⟨s, hrun, hp⟩ : ∃ s, Run (step plain edge) Always (.start 0) down s ∧
      decide (s.starts = [101, 100]) = true :=
    exists_run_of_execOk (by decide +kernel)
  exact ⟨s, hrun, of_decide_eq_true hp⟩

/-- The key of the token is cached, and the call raises. -/
theorem exists_run_late : ∃ s, Run (step plain edge) Always (.start 0) late s ∧
    ∃ e ∈ s.ended, e.token = ("k1", 1) ∧ e.keys.get "k1" = some 1 ∧ e.outcome = .raised "ConnectError" := by
  obtain ⟨s, hrun, hp⟩ : ∃ s, Run (step plain edge) Always (.start 0) late s ∧
      (s.ended.any fun e => e.token = ("k1", 1) ∧ e.keys.get "k1" = some 1 ∧
        e.outcome = .raised "ConnectError") = true :=
    exists_run_of_execOk (by decide +kernel)
  obtain ⟨e, he, hp⟩ := List.any_eq_true.mp hp
  exact ⟨s, hrun, e, he, of_decide_eq_true hp⟩

/-- **A bad token can drive a fetch every time**, and a good one is turned away. -/
theorem not_guarded : ¬ (∀ ls s, Run (step plain edge) Always (.start 0) ls s →
      s.starts.Pairwise fun later earlier => edge.minRefetchInterval ≤ later - earlier) ∧
    ¬ ∀ ls s, Run (step plain edge) Always (.start 0) ls s → ∀ e ∈ s.ended, ∀ c,
      Signed plain edge e.keys e.wall e.token c → e.outcome = .claims c := by
  constructor
  · intro hall
    obtain ⟨s, hrun, hstarts⟩ := exists_run_down
    have hapart := hall _ s hrun
    rw [hstarts] at hapart
    exact too_close ((List.pairwise_cons.mp hapart).1 100 List.mem_cons_self)
  · intro hall
    obtain ⟨s, hrun, e, he, htoken, hkey, houtcome⟩ := exists_run_late
    have hsigned : Signed plain edge e.keys e.wall e.token 1 := by
      rw [htoken]
      exact ⟨"k1", 1, rfl, hkey, rfl⟩
    have hclaims := hall _ s hrun e he 1 hsigned
    rw [houtcome] at hclaims
    cases hclaims

/-- A forged token while the endpoint is down; a good one when it is up again, and a second one that
finds its key; and a forged one that asks for nothing. -/
def recovered : List (Label ℕ (String × ℕ)) :=
  [.verify ("forged", 9) 100 100 0, .fail 0 "ConnectError" 0, .verify ("k1", 1) 110 110 0,
    .respond 0 (some [⟨some "RSA", some "k1", 1⟩]) 110 0, .verify ("k1", 1) 111 111 0,
    .verify ("forged", 9) 112 112 0]

theorem guarded_iff_clear_recovered : ∃ s, Run (step plain edge) Always (.start 0) recovered s ∧
    s.starts = [110, 100] ∧ s.ended.map (·.outcome) = [.invalid "unknown kid", .claims 1, .claims 1,
      .raised "ConnectError"] ∧ Guarded plain edge s := by
  obtain ⟨s, hrun, hp⟩ : ∃ s, Run (step plain edge) (Clear plain edge) (.start 0) recovered s ∧
      decide (s.starts = [110, 100] ∧ s.ended.map (·.outcome) = [.invalid "unknown kid", .claims 1,
        .claims 1, .raised "ConnectError"]) = true :=
    exists_run_of_execOk (by decide +kernel)
  obtain ⟨hstarts, houtcomes⟩ := of_decide_eq_true hp
  exact ⟨s, hrun.forget, hstarts, houtcomes, (guarded_iff_clear hrun.forget).mpr hrun⟩

end Auth.Verifier
