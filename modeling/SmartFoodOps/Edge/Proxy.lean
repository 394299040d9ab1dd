/-
edge-bff: authenticate, limit, stamp and forward.

* `Redis.incr`, `check` — the fixed-window limiter, one script a check;
* `clientIp`, `authenticate` — who a request comes from, and the headers that it is stamped
  with;
* `Dict.update`, `forwardHeaders` — the headers that are forwarded;
* `proxy` — one request: a refusal, or what is handed to the HTTP client
  (`forwarded_of_proxy`).

Times are milliseconds; a check reads the clock and runs its script at one moment.  Token
verification is a parameter, and what the upstream answers is left out.
-/
import SmartFoodOps.Edge.Routing

open Auth

namespace Edge

/-! ### The limiter -/

/-- `rl:{class}:{scope}:{bucket}`; the bucket is what follows the last colon. -/
structure RedisKey where
  routeClass : RouteClass
  scope : String
  bucket : ℕ
  deriving DecidableEq

structure Counter where
  count : ℕ
  expiresAt : ℕ
  deriving DecidableEq

abbrev Redis := RedisKey → Option Counter

/-- `INCR`, and `EXPIRE` on the first hit. -/
def Redis.incr (redis : Redis) (key : RedisKey) (window now : ℕ) : ℕ × Redis :=
  let counter : Counter :=
    match (redis key).filter fun c => decide (now < c.expiresAt) with
    | none => ⟨1, now + window * 1000⟩
    | some c => { c with count := c.count + 1 }
  (counter.count, Function.update redis key (some counter))

structure Settings where
  /-- Whether there is a Redis. -/
  armed : Bool
  limit : RouteClass → ℕ
  window : ℕ
  window_pos : 0 < window

/-- The defaults of the configuration; a Redis URL arms the limiter. -/
def Settings.standard (armed : Bool) : Settings where
  armed := armed
  limit
    | .auth => 30
    | .read => 300
    | .write => 120
  window := 60
  window_pos := by decide

def Settings.bucket (settings : Settings) (now : ℕ) : ℕ := now / 1000 / settings.window

structure Decision where
  allowed : Bool
  limit : ℕ
  remaining : ℕ
  resetEpoch : ℕ
  deriving DecidableEq

/-- `RateLimiter.check`; `none` is no verdict, also when Redis does not answer. -/
def check (settings : Settings) (redis : Redis) (now : ℕ) (answers : Bool) (routeClass : RouteClass)
    (scope : String) : Option Decision × Redis :=
  if settings.armed && answers then
    let bucket := settings.bucket now
    let (count, redis') := redis.incr ⟨routeClass, scope, bucket⟩ settings.window now
    let limit := settings.limit routeClass
    (some ⟨decide (count ≤ limit), limit, limit - count, (bucket + 1) * settings.window⟩, redis')
  else (none, redis)

/-! ### Requests -/

structure Request where
  /-- Percent-decoded, without its first slash. -/
  path : String
  method : String
  headers : Headers
  query : String
  body : String
  clientHost : Option String
  /-- What the middleware has bound. -/
  requestId : Option String
  traceparent : Option String
  deriving DecidableEq

inductive VerifyError
  | expired
  | invalid
  /-- The keys cannot be fetched. -/
  | unavailable
  deriving DecidableEq

abbrev Verifier := String → Except VerifyError Claims

inductive Refusal
  | notFound
  | missingToken
  | tokenExpired
  | invalidToken
  | rateLimited (decision : Decision)
  /-- An exception that nobody catches. -/
  | failed
  deriving DecidableEq

/-- The first forwarded hop, or else the address of the connection. -/
def clientIp (r : Request) : String :=
  let hop := Text.strip ((Text.split ',' ((r.headers.get "x-forwarded-for").getD "")).headD "")
  if hop = "" then r.clientHost.getD "unknown" else hop

/-- `s.partition(" ")`: what stands before the first space, and after it. -/
def partitionSpace (s : String) : String × String :=
  (String.ofList (s.toList.takeWhile (· ≠ ' ')),
    String.ofList ((s.toList.dropWhile (· ≠ ' ')).drop 1))

def authorization (r : Request) : String := (r.headers.get "authorization").getD ""

/-- The token of a route that demands one. -/
def demandedToken (r : Request) : Option String :=
  let (scheme, token) := partitionSpace (authorization r)
  if scheme.toLower = "bearer" ∧ token ≠ "" then some token else none

/-- The token that a caller of a public route offers. -/
def offeredToken (r : Request) : Option String :=
  if "bearer ".toList <+: (authorization r).toLower.toList then
    some (partitionSpace (authorization r)).2
  else none

/-- The headers to stamp, and the scope of the limiter. -/
def authenticate (verify : Verifier) (rule : Rule) (r : Request) :
    Except Refusal (Headers × String) :=
  let anonymous := ([], "ip:" ++ clientIp r)
  if needsAuth rule r.method then
    match demandedToken r with
    | none => .error .missingToken
    | some token =>
      match verify token with
      | .error .expired => .error .tokenExpired
      | .error .invalid => .error .invalidToken
      | .error .unavailable => .error .failed
      | .ok claims =>
        match contextFromClaims claims with
        | none => .error .failed
        | some ctx => .ok (headersFor ctx, "sub:" ++ claims.sub)
  else
    match offeredToken r with
    | none => .ok anonymous
    | some token =>
      match verify token with
      | .error _ => .ok anonymous
      | .ok claims =>
        match contextFromClaims claims with
        -- whatever goes wrong, the caller is anonymous
        | none => .ok anonymous
        | some ctx => .ok (headersFor ctx, "sub:" ++ claims.sub)

/-! ### Forwarding -/

namespace Dict

/-- `d[k] = v`. -/
def set (d : Headers) (h : String × String) : Headers :=
  if d.any fun x => x.1 = h.1 then d.map fun x => if x.1 = h.1 then h else x else d ++ [h]

/-- `d.update(items)`. -/
def update (d items : Headers) : Headers := items.foldl set d

end Dict

/-- `_DROP_INBOUND`. -/
def dropInbound : List String :=
  stripHeaders.map String.toLower ++ ["host", "content-length", "connection", "authorization"]

def forwardHeaders (r : Request) (stamped : Headers) : Headers :=
  let forward := Dict.update [] (r.headers.filter fun h => h.1.toLower ∉ dropInbound)
  let forward := Dict.update forward stamped
  let forward := Dict.update forward (r.requestId.toList.map ("x-request-id", ·))
  Dict.update forward (r.traceparent.toList.map ("traceparent", ·))

/-- A request for `base_url + "/" + path`. -/
structure Forwarded where
  upstream : Upstream
  path : String
  method : String
  query : String
  body : String
  headers : Headers
  deriving DecidableEq

/-- One request, at the time `now`; `answers` says whether Redis does. -/
def proxy (settings : Settings) (verify : Verifier) (redis : Redis) (now : ℕ) (answers : Bool)
    (r : Request) : Except Refusal Forwarded × Redis :=
  match matchRule ("/" ++ r.path) with
  | none => (.error .notFound, redis)
  | some rule =>
    match authenticate verify rule r with
    | .error e => (.error e, redis)
    | .ok (stamped, scope) =>
      let (decision, redis') :=
        check settings redis now answers (limitClassFor rule r.method) scope
      let forwarded : Forwarded :=
        ⟨rule.upstream, r.path, r.method, r.query, r.body, forwardHeaders r stamped⟩
      match decision with
      | some d => (if d.allowed then .ok forwarded else .error (.rateLimited d), redis')
      | none => (.ok forwarded, redis')

/-- What is handed on, of a request that is. -/
theorem forwarded_of_proxy {settings : Settings} {verify : Verifier} {redis : Redis} {now : ℕ}
    {answers : Bool} {r : Request} {f : Forwarded}
    (h : (proxy settings verify redis now answers r).1 = .ok f) :
    ∃ rule stamped scope, matchRule ("/" ++ r.path) = some rule ∧
      authenticate verify rule r = .ok (stamped, scope) ∧
        f = ⟨rule.upstream, r.path, r.method, r.query, r.body, forwardHeaders r stamped⟩ := by
  unfold proxy at h
  split at h
  · cases h
  · next rule hrule =>
    split at h
    · cases h
    · next stamped scope hauth =>
      refine ⟨rule, stamped, scope, hrule, hauth, ?_⟩
      simp only at h
      split at h
      · split at h
        · cases h
          rfl
        · cases h
      · cases h
        rfl

/-- A request that is let through. -/
theorem forward_of_allowed {settings : Settings} {verify : Verifier} {redis : Redis} {now : ℕ}
    {answers : Bool} {r : Request} {rule : Rule} {stamped : Headers} {scope : String}
    (hrule : matchRule ("/" ++ r.path) = some rule)
    (hauth : authenticate verify rule r = .ok (stamped, scope))
    (hallowed : ∀ d ∈ (check settings redis now answers (limitClassFor rule r.method) scope).1,
      d.allowed = true) :
    (proxy settings verify redis now answers r).1 =
      .ok ⟨rule.upstream, r.path, r.method, r.query, r.body, forwardHeaders r stamped⟩ := by
  unfold proxy
  rw [hrule]
  simp only [hauth]
  cases hd : (check settings redis now answers (limitClassFor rule r.method) scope).1 with
  | none => rfl
  | some d => simp only [hallowed d hd, if_true]

end Edge
