/-
Guessing credentials: what the limiter admits of one peer.

* `Gateway.pass` — nginx, in front of the edge;
* `Attempt`, `admitted` — requests of one peer, and those that the edge lets through;
* `scopeOf`, `keyOf` — whom a request is counted for, and with which counter;
* `Counts`, `map_admitted` — a counter is never lost within its bucket, so each gets its quota;
* `guesses_bounded_iff` — exactly when the limit holds for the peer.

The gateway does not set X-Forwarded-For, so that the first hop is what the client says.
-/
import SmartFoodOps.Edge.Headers
import SmartFoodOps.Lib.Quota

open Auth Quota

namespace Edge

/-! ### The gateway -/

structure Attempt where
  now : ℕ
  request : Request

structure Gateway where
  /-- Where its connections to the edge come from. -/
  address : String
  host : Request → String
  msec : ℕ → String

/-- `location /`: five headers are cleared, two are set, and all others are passed on. -/
def Gateway.pass (g : Gateway) (a : Attempt) : Request :=
  { a.request with
    headers := (a.request.headers.filter fun h =>
        !isIdentity h && h.1.toLower ∉ ["host", "x-request-start"]) ++
      [("Host", g.host a.request), ("X-Request-Start", g.msec a.now)]
    clientHost := some g.address }

/-! ### Attempts -/

/-- The credential endpoints. -/
def IsAuthRoute (r : Request) : Prop :=
  (matchRule ("/" ++ r.path)).map (limitClassFor · r.method) = some .auth

instance (r : Request) : Decidable (IsAuthRoute r) := inferInstanceAs (Decidable (_ = _))

/-- Whom a request to an open route is counted for. -/
def scopeOf (verify : Verifier) (r : Request) : String :=
  match ((offeredToken r).bind fun token => (verify token).toOption).bind contextFromClaims with
  | some ctx => "sub:" ++ ctx.sub
  | none => "ip:" ++ clientIp r

section

variable (settings : Settings) (verify : Verifier) (g : Gateway)

/-- The attempts that are forwarded, while Redis answers. -/
def admitted : Redis → List Attempt → List Attempt
  | _, [] => []
  | redis, a :: rest =>
    let (result, redis') := proxy settings verify redis a.now true (g.pass a)
    if result.isOk then a :: admitted redis' rest else admitted redis' rest

def keyOf (a : Attempt) : RedisKey :=
  ⟨.auth, scopeOf verify (g.pass a), settings.bucket a.now⟩

/-- Those of one window. -/
def inBucket (bucket : ℕ) (attempts : List Attempt) : List Attempt :=
  attempts.filter fun a => settings.bucket a.now = bucket

end

variable {settings : Settings} {verify : Verifier} {g : Gateway} {redis : Redis}

theorem open_of_limit : ∀ rule ∈ rules, rule.limit = some .auth ∧ rule.mode = .open ∨
    rule.limit = none := by
  decide

theorem authenticate_open {rule : Rule} {r : Request} (h : rule.mode = .open) :
    ∃ stamped, authenticate verify rule r = .ok (stamped, scopeOf verify r) := by
  have hneeds : ¬ needsAuth rule r.method = true := by
    unfold needsAuth
    rw [h]
    exact Bool.false_ne_true
  unfold authenticate scopeOf
  rw [if_neg hneeds]
  split
  · next htoken =>
    rw [htoken]
    exact ⟨_, rfl⟩
  next token htoken =>
  rw [htoken, Option.bind_some]
  split
  · next e hverify =>
    rw [hverify]
    exact ⟨_, rfl⟩
  next claims hverify =>
  rw [hverify]
  cases hctx : contextFromClaims claims with
  | none =>
    simp only [Except.toOption, Option.bind_some, hctx]
    exact ⟨_, rfl⟩
  | some ctx =>
    have hsub : ctx.sub = claims.sub := by
      unfold contextFromClaims at hctx
      split at hctx
      · cases hctx
        rfl
      · cases hctx
    simp only [Except.toOption, Option.bind_some, hctx, hsub]
    exact ⟨_, rfl⟩

/-- An attempt is counted, and passes as long as the count is within the limit. -/
theorem proxy_authRoute (harmed : settings.armed = true) {now : ℕ} {r : Request}
    (hroute : IsAuthRoute r) :
    (proxy settings verify redis now true r).1.isOk =
        decide ((redis.incr ⟨.auth, scopeOf verify r, settings.bucket now⟩ settings.window now).1 ≤
          settings.limit .auth) ∧
      (proxy settings verify redis now true r).2 =
        (redis.incr ⟨.auth, scopeOf verify r, settings.bucket now⟩ settings.window now).2 := by
  obtain ⟨rule, hrule, hclass⟩ := Option.map_eq_some_iff.mp hroute
  have hopen : rule.mode = .open := by
    rcases open_of_limit rule (mem_of_matchRule hrule) with ⟨-, hopen⟩ | hnone
    · exact hopen
    · unfold limitClassFor at hclass
      rw [hnone] at hclass
      simp only at hclass
      split at hclass <;> cases hclass
  obtain ⟨stamped, hauth⟩ := @authenticate_open verify rule r hopen
  unfold proxy check
  simp only [hrule, hauth, hclass, harmed, Bool.and_self, if_true]
  split <;> simp_all [Except.isOk, Except.toBool]

/-! ### Counters -/

/-- What the counters say of the attempts so far. -/
def Counts (settings : Settings) (redis : Redis) (seen : List RedisKey) : Prop :=
  ∀ key, key.routeClass = .auth → match redis key with
    | none => seen.count key = 0
    | some c => c.count = seen.count key ∧
        (key.bucket + 1) * settings.window * 1000 ≤ c.expiresAt

theorem bucket_bounds (settings : Settings) (now : ℕ) :
    settings.bucket now * settings.window * 1000 ≤ now ∧
      now < (settings.bucket now + 1) * settings.window * 1000 := by
  have hlow := Nat.div_mul_le_self (now / 1000) settings.window
  have hhigh : now / 1000 < now / 1000 / settings.window * settings.window + settings.window :=
    Nat.lt_div_mul_add settings.window_pos
  show now / 1000 / settings.window * settings.window * 1000 ≤ now ∧
    now < (now / 1000 / settings.window + 1) * settings.window * 1000
  rw [Nat.add_mul, Nat.one_mul]
  generalize now / 1000 / settings.window * settings.window = start at *
  omega

theorem counts_empty : Counts settings (fun _ => none) [] := fun _ _ => List.count_nil

/-- **No counter expires within its window.** -/
theorem Counts.incr {seen : List RedisKey} (h : Counts settings redis seen) {key : RedisKey}
    {now : ℕ} (hclass : key.routeClass = .auth) (hbucket : key.bucket = settings.bucket now) :
    (redis.incr key settings.window now).1 = seen.count key + 1 ∧
      Counts settings (redis.incr key settings.window now).2 (key :: seen) := by
  obtain ⟨hlow, hhigh⟩ := bucket_bounds settings now
  rw [← hbucket] at hlow hhigh
  have hkey := h key hclass
  -- the counter that is written
  obtain ⟨c, hincr, hcount, hexpires⟩ : ∃ c : Counter,
      redis.incr key settings.window now = (c.count, Function.update redis key (some c)) ∧
        c.count = seen.count key + 1 ∧
          (key.bucket + 1) * settings.window * 1000 ≤ c.expiresAt := by
    refine ⟨_, rfl, ?_⟩
    cases hr : redis key with
    | none =>
      rw [hr] at hkey
      simp only [Option.filter_none]
      rw [hkey, Nat.add_mul, Nat.add_mul, Nat.one_mul]
      exact ⟨rfl, Nat.add_le_add_right hlow _⟩
    | some c =>
      rw [hr] at hkey
      have hlive : now < c.expiresAt := Nat.lt_of_lt_of_le hhigh hkey.2
      simp only [Option.filter_some, hlive, decide_true, if_true]
      exact ⟨congrArg (· + 1) hkey.1, hkey.2⟩
  rw [hincr]
  refine ⟨hcount, fun key' hclass' => ?_⟩
  simp only
  by_cases hk : key' = key
  · rw [hk, Function.update_self, List.count_cons_self]
    exact ⟨hcount, hexpires⟩
  · rw [Function.update_of_ne hk, List.count_cons_of_ne (Ne.symm hk)]
    exact h key' hclass'

/-- The limiter lets through what a quota for each counter lets through. -/
theorem map_admitted {seen : List RedisKey} {attempts : List Attempt}
    (harmed : settings.armed = true) (hroutes : ∀ a ∈ attempts, IsAuthRoute a.request)
    (h : Counts settings redis seen) :
    (admitted settings verify g redis attempts).map (keyOf settings verify g) =
      passing (settings.limit .auth) seen (attempts.map (keyOf settings verify g)) := by
  induction attempts generalizing redis seen with
  | nil => rfl
  | cons a rest ih =>
    obtain ⟨hroute, hroutes⟩ := List.forall_mem_cons.mp hroutes
    obtain ⟨hok, hredis⟩ := @proxy_authRoute settings verify redis harmed a.now (g.pass a) hroute
    obtain ⟨hcount, hcounts⟩ := @Counts.incr settings redis seen h (keyOf settings verify g a)
      a.now rfl rfl
    have hrest := ih hroutes hcounts
    unfold keyOf at hcount hrest
    rw [hcount] at hok
    rw [← hredis] at hrest
    rw [List.map_cons, passing, admitted]
    simp only [hok]
    by_cases hlimit : seen.count (keyOf settings verify g a) < settings.limit .auth
    · have hle : seen.count (keyOf settings verify g a) + 1 ≤ settings.limit .auth := hlimit
      unfold keyOf at hlimit hle ⊢
      rw [if_pos hlimit, if_pos (decide_eq_true hle), List.map_cons]
      exact congrArg _ hrest
    · have hle : ¬ seen.count (keyOf settings verify g a) + 1 ≤ settings.limit .auth := hlimit
      unfold keyOf at hlimit hle ⊢
      rw [if_neg hlimit, if_neg (by simpa using hle)]
      exact hrest

/-! ### The limit -/

theorem length_inBucket (bucket : ℕ) (attempts : List Attempt) :
    (inBucket settings bucket attempts).length =
      ((attempts.map (keyOf settings verify g)).filter fun key => key.bucket = bucket).length := by
  rw [List.filter_map, List.length_map]
  rfl

/-- **In every window at most the limit is admitted, exactly if in every window the attempts
are that few, or are all counted for the same scope, or nothing is allowed at all.** -/
theorem guesses_bounded_iff {attempts : List Attempt} (harmed : settings.armed = true)
    (hroutes : ∀ a ∈ attempts, IsAuthRoute a.request) :
    (∀ bucket, (inBucket settings bucket
        (admitted settings verify g (fun _ => none) attempts)).length ≤ settings.limit .auth) ↔
      ∀ bucket, (inBucket settings bucket attempts).length ≤ settings.limit .auth ∨
        (∀ a ∈ inBucket settings bucket attempts, ∀ a' ∈ inBucket settings bucket attempts,
          scopeOf verify (g.pass a) = scopeOf verify (g.pass a')) ∨ settings.limit .auth = 0 := by
  refine forall_congr' fun bucket => ?_
  have hkeys := @map_admitted settings verify g (fun _ => none) [] attempts harmed hroutes
    counts_empty
  rw [@length_inBucket settings verify g, hkeys, filter_passing, List.filter_nil,
    length_passing_le_iff, ← length_inBucket]
  refine or_congr_right (or_congr_left ?_)
  have hmem : ∀ key, key ∈ (attempts.map (keyOf settings verify g)).filter
      (fun key => key.bucket = bucket) ↔
        ∃ a ∈ inBucket settings bucket attempts, keyOf settings verify g a = key := by
    intro key
    unfold inBucket
    simp only [List.mem_filter, List.mem_map, decide_eq_true_eq]
    constructor
    · rintro ⟨⟨a, ha, rfl⟩, hb⟩
      exact ⟨a, ⟨ha, hb⟩, rfl⟩
    · rintro ⟨a, ⟨ha, hb⟩, rfl⟩
      exact ⟨⟨a, ha, rfl⟩, hb⟩
  constructor
  · intro h a ha a' ha'
    exact congrArg RedisKey.scope (h _ ((hmem _).mpr ⟨a, ha, rfl⟩) _ ((hmem _).mpr ⟨a', ha', rfl⟩))
  · intro h key hkey key' hkey'
    obtain ⟨a, ha, rfl⟩ := (hmem key).mp hkey
    obtain ⟨a', ha', rfl⟩ := (hmem key').mp hkey'
    have hb : settings.bucket a.now = bucket := of_decide_eq_true (List.mem_filter.mp ha).2
    have hb' : settings.bucket a'.now = bucket := of_decide_eq_true (List.mem_filter.mp ha').2
    unfold keyOf
    rw [h a ha a' ha', hb, hb']

/-! ### A peer that chooses its address -/

/-- **The gateway passes on what a client says of its address.** -/
theorem get_pass (g : Gateway) (a : Attempt) :
    (g.pass a).headers.get "x-forwarded-for" = a.request.headers.get "x-forwarded-for" := by
  have hlower : "x-forwarded-for".toLower = "x-forwarded-for" := toLower_eq (by decide)
  have hhost : "Host".toLower = "host" := toLower_eq (by decide)
  have hstart : "X-Request-Start".toLower = "x-request-start" := toLower_eq (by decide)
  have hkeep : ∀ h : String × String, ((!isIdentity h &&
      decide (h.1.toLower ∉ ["host", "x-request-start"])) = true ∧
        decide (h.1.toLower = "x-forwarded-for") = true) ↔ h.1.toLower = "x-forwarded-for" := by
    intro h
    by_cases hx : h.1.toLower = "x-forwarded-for"
    · have hidentity : isIdentity h = false := by
        unfold isIdentity
        rw [hx, toLower_stripHeaders]
        decide
      simp [hx, hidentity]
    · simp [hx]
  unfold Headers.get Gateway.pass
  rw [hlower, List.find?_append, List.find?_filter]
  simp only [hkeep]
  simp [hhost, hstart]

def login (hop : String) : Attempt where
  now := 0
  request :=
    { path := "v1/auth/login"
      method := "POST"
      headers := [("X-Forwarded-For", hop)]
      query := ""
      body := ""
      clientHost := none
      requestId := none
      traceparent := none }

def demoGateway : Gateway := ⟨"172.18.0.5", fun _ => "localhost", fun _ => "0.000"⟩

/-- No token verifies. -/
def anonymous : Verifier := fun _ => .error .invalid

theorem scopeOf_login (hop : String) : scopeOf anonymous (demoGateway.pass (login hop)) =
    "ip:" ++ (if Text.strip ((Text.split ',' hop).headD "") = "" then "172.18.0.5"
      else Text.strip ((Text.split ',' hop).headD "")) := by
  have hanonymous : ∀ token : Option String,
      ((token.bind fun t => (anonymous t).toOption).bind contextFromClaims) = none := by
    intro token
    cases token <;> rfl
  have hhop : (demoGateway.pass (login hop)).headers.get "x-forwarded-for" = some hop := by
    have hlower : "X-Forwarded-For".toLower = "x-forwarded-for".toLower := by
      have hsent : "X-Forwarded-For".toLower = "x-forwarded-for" := toLower_eq (by decide)
      have hread : "x-forwarded-for".toLower = "x-forwarded-for" := toLower_eq (by decide)
      rw [hsent, hread]
    rw [get_pass]
    simp [login, Headers.get, hlower]
  unfold scopeOf clientIp
  rw [hanonymous, hhop]
  rfl

theorem isAuthRoute_login (hop : String) : IsAuthRoute (login hop).request := by
  show (matchRule ("/" ++ "v1/auth/login")).map (limitClassFor · "POST") = some .auth
  decide +kernel

/-- Thirty-one guesses under one address. -/
def stubborn : List Attempt := List.replicate 31 (login "203.0.113.1")

/-- The last of them is refused. -/
theorem guesses_bounded_of_stubborn :
    (inBucket (.standard true) 0 stubborn).length = 31 ∧
      ∀ bucket, (inBucket (.standard true) bucket (admitted (.standard true) anonymous demoGateway
        (fun _ => none) stubborn)).length ≤ 30 := by
  have hlogin : ∀ a ∈ stubborn, a = login "203.0.113.1" := fun _ => List.eq_of_mem_replicate
  refine ⟨rfl, (@guesses_bounded_iff (.standard true) anonymous demoGateway stubborn rfl
    fun a ha => hlogin a ha ▸ isAuthRoute_login _).mpr fun bucket => .inr (.inl ?_)⟩
  intro a ha a' ha'
  rw [hlogin a (List.mem_of_mem_filter ha), hlogin a' (List.mem_of_mem_filter ha')]

/-- Thirty guesses under one address, and one more under another. -/
def spoofed : List Attempt := List.replicate 30 (login "203.0.113.1") ++ [login "203.0.113.2"]

/-- **More guesses than the limit are admitted of one peer.** -/
theorem guesses_unbounded : ¬ (inBucket (.standard true) 0 (admitted (.standard true) anonymous
    demoGateway (fun _ => none) spoofed)).length ≤ (Settings.standard true).limit .auth := by
  have hroutes : ∀ a ∈ spoofed, IsAuthRoute a.request := by
    intro a ha
    rcases List.mem_append.mp ha with ha | ha
    · rw [List.eq_of_mem_replicate ha]
      exact isAuthRoute_login _
    · rw [List.mem_singleton.mp ha]
      exact isAuthRoute_login _
  have hkeys := @map_admitted (.standard true) anonymous demoGateway (fun _ => none) [] spoofed rfl
    hroutes counts_empty
  have hbucket : ∀ a ∈ spoofed, (Settings.standard true).bucket a.now = 0 := by
    intro a ha
    rcases List.mem_append.mp ha with ha | ha
    · rw [List.eq_of_mem_replicate ha]
      rfl
    · rw [List.mem_singleton.mp ha]
      rfl
  have hall : ((spoofed.map (keyOf (.standard true) anonymous demoGateway)).filter
      fun key => key.bucket = 0) = spoofed.map (keyOf (.standard true) anonymous demoGateway) := by
    refine List.filter_eq_self.mpr fun key hkey => ?_
    obtain ⟨a, ha, rfl⟩ := List.mem_map.mp hkey
    exact decide_eq_true (hbucket a ha)
  rw [@length_inBucket (.standard true) anonymous demoGateway, hkeys, filter_passing,
    List.filter_nil, hall, length_passing_le_iff, List.length_map]
  rintro (hfew | hsame | hzero)
  · exact absurd hfew (by decide)
  · have hscope : "ip:203.0.113.1" = "ip:203.0.113.2" := by
      have hkey := hsame (keyOf (.standard true) anonymous demoGateway (login "203.0.113.1"))
        (List.mem_map_of_mem (by simp [spoofed]))
        (keyOf (.standard true) anonymous demoGateway (login "203.0.113.2"))
        (List.mem_map_of_mem (by simp [spoofed]))
      have hscopes := congrArg RedisKey.scope hkey
      unfold keyOf at hscopes
      simp only [scopeOf_login] at hscopes
      exact hscopes
    exact absurd hscope (by decide)
  · exact absurd hzero (by decide)

end Edge
