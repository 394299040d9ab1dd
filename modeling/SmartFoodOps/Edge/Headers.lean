/-
Identity headers: what is forwarded is what has been verified, and an upstream reads it back.

* `identityOf`, `restOf` — the headers that services trust, and the others;
* `verifiedContext` — whom the token of a request has been issued to;
* `identityOf_forwardHeaders` — what is stamped is all that is forwarded of them;
* `SameButIdentity`, `proxy_congr` — what a client sends of them changes nothing;
* `Carries` — what is asked of the way to the upstream;
* `getAuthContext_headersFor` — the context of presentable claims survives it;
* `identity_forwarded` — all three, for a request that is forwarded.
-/
import SmartFoodOps.Edge.Proxy
import SmartFoodOps.Identity.Accounts
import SmartFoodOps.Identity.Rotation

open Auth Identity Machine

namespace Edge

/-! ### Identity headers -/

/-- One of the headers that are trusted, in any case. -/
def isIdentity (h : String × String) : Bool := h.1.toLower ∈ stripHeaders.map String.toLower

def identityOf (hs : Headers) : Headers := hs.filter isIdentity

def restOf (hs : Headers) : Headers := hs.filter fun h => !isIdentity h

/-- The token that the proxy looks at. -/
def presentedToken (rule : Rule) (r : Request) : Option String :=
  if needsAuth rule r.method then demandedToken r else offeredToken r

/-- The claims of the token, if it verifies. -/
def verifiedClaims (verify : Verifier) (rule : Rule) (r : Request) : Option Claims :=
  (presentedToken rule r).bind fun token => (verify token).toOption

def verifiedContext (verify : Verifier) (rule : Rule) (r : Request) : Option AuthContext :=
  (verifiedClaims verify rule r).bind contextFromClaims

/-! ### Dictionaries -/

theorem isIdentity_congr {h h' : String × String} (hname : h.1 = h'.1) :
    isIdentity h = isIdentity h' := by
  unfold isIdentity
  rw [hname]

/-- Lower case, character by character. -/
theorem toLower_eq {s t : String} (h : s.toList.map Char.toLower = t.toList) : s.toLower = t := by
  show s.map Char.toLower = t
  rw [← String.toList_inj, String.toList_map, h]

theorem toLower_hSub : hSub.toLower = "x-auth-sub" := toLower_eq (by decide)
theorem toLower_hRole : hRole.toLower = "x-auth-role" := toLower_eq (by decide)
theorem toLower_hRoles : hRoles.toLower = "x-auth-roles" := toLower_eq (by decide)
theorem toLower_hRestaurant : hRestaurant.toLower = "x-auth-restaurant-id" := toLower_eq (by decide)
theorem toLower_hRider : hRider.toLower = "x-auth-rider-id" := toLower_eq (by decide)

/-- The names that are trusted, as a server sees them. -/
theorem toLower_stripHeaders : stripHeaders.map String.toLower =
    ["x-auth-sub", "x-auth-role", "x-auth-roles", "x-auth-restaurant-id", "x-auth-rider-id"] := by
  simp only [stripHeaders, List.map_cons, List.map_nil, toLower_hSub, toLower_hRole, toLower_hRoles,
    toLower_hRestaurant, toLower_hRider]

theorem isIdentity_eq_false {name : String} (hlower : name.toList.map Char.toLower = name.toList)
    (h : name ∉ ["x-auth-sub", "x-auth-role", "x-auth-roles", "x-auth-restaurant-id",
      "x-auth-rider-id"]) : isIdentity (name, "") = false := by
  unfold isIdentity
  rw [toLower_stripHeaders, toLower_eq hlower]
  exact decide_eq_false h

/-- What the proxy stamps is trusted. -/
theorem isIdentity_stamped : ∀ name ∈ [hSub, hRoles, hRestaurant, hRider],
    isIdentity (name, "") = true := by
  intro name hname
  unfold isIdentity
  refine decide_eq_true (List.mem_map_of_mem ?_)
  simp only [List.mem_cons, List.not_mem_nil, or_false] at hname
  rcases hname with rfl | rfl | rfl | rfl <;> simp [stripHeaders]

theorem isIdentity_xRequestId : isIdentity ("x-request-id", "") = false :=
  isIdentity_eq_false (by decide) (by simp)

theorem isIdentity_traceparent : isIdentity ("traceparent", "") = false :=
  isIdentity_eq_false (by decide) (by simp)

theorem isIdentity_xForwardedFor : isIdentity ("x-forwarded-for", "") = false :=
  isIdentity_eq_false (by decide) (by simp)

theorem isIdentity_authorization : isIdentity ("authorization", "") = false :=
  isIdentity_eq_false (by decide) (by simp)

/-- Another header under a name that is not trusted. -/
theorem identityOf_set {d : Headers} {h : String × String} (hh : isIdentity h = false) :
    identityOf (Dict.set d h) = identityOf d := by
  unfold Dict.set
  split
  · unfold identityOf
    clear * - hh
    induction d with
    | nil => rfl
    | cons x d ih =>
      rw [List.map_cons]
      by_cases hx : x.1 = h.1
      · have hx' : isIdentity x = false := (isIdentity_congr hx).trans hh
        rw [if_pos hx, List.filter_cons_of_neg (by simp [hh]), List.filter_cons_of_neg (by simp [hx']),
          ih]
      · rw [if_neg hx, List.filter_cons, List.filter_cons, ih]
  · unfold identityOf
    rw [List.filter_append, List.filter_cons_of_neg (by simp [hh]), List.filter_nil, List.append_nil]

theorem identityOf_update {d items : Headers} (h : ∀ x ∈ items, isIdentity x = false) :
    identityOf (Dict.update d items) = identityOf d := by
  induction items generalizing d with
  | nil => rfl
  | cons x items ih =>
    obtain ⟨hx, hitems⟩ := List.forall_mem_cons.mp h
    exact (ih hitems).trans (identityOf_set hx)

/-- Names that are new are appended. -/
theorem update_append {d items : Headers} (hnew : ∀ x ∈ items, ∀ y ∈ d, y.1 ≠ x.1)
    (hdistinct : items.Pairwise fun x y => x.1 ≠ y.1) : Dict.update d items = d ++ items := by
  induction items generalizing d with
  | nil => exact (List.append_nil d).symm
  | cons x items ih =>
    obtain ⟨hx, hitems⟩ := List.pairwise_cons.mp hdistinct
    obtain ⟨hnewx, hnew⟩ := List.forall_mem_cons.mp hnew
    have hset : Dict.set d x = d ++ [x] := by
      unfold Dict.set
      rw [if_neg]
      intro hany
      obtain ⟨y, hy, he⟩ := List.any_eq_true.mp hany
      exact hnewx y hy (of_decide_eq_true he)
    show Dict.update (Dict.set d x) items = _
    rw [hset, ih _ hitems, List.append_assoc]
    · rfl
    intro y hy z hz
    rcases List.mem_append.mp hz with hz | hz
    · exact hnew y hy z hz
    · rw [List.mem_singleton.mp hz]
      exact hx y hy

/-! ### What is stamped -/

theorem stampIf_cases (name : String) (v : Option String) :
    stampIf name v = [] ∨ ∃ u, v = some u ∧ u ≠ "" ∧ stampIf name v = [(name, u)] := by
  unfold stampIf
  split
  · exact .inl rfl
  · exact .inl rfl
  · next u hu => exact .inr ⟨u, rfl, fun he => hu (by rw [he]), rfl⟩

theorem mem_stampIf {name : String} {v : Option String} {h : String × String}
    (hh : h ∈ stampIf name v) : v = some h.2 := by
  rcases stampIf_cases name v with hv | ⟨u, rfl, -, hv⟩
  · rw [hv] at hh
    cases hh
  · rw [hv] at hh
    rw [List.mem_singleton.mp hh]

theorem isIdentity_headersFor (ctx : AuthContext) : ∀ h ∈ headersFor ctx, isIdentity h = true := by
  have hnames : ∀ h ∈ headersFor ctx, h.1 ∈ [hSub, hRoles, hRestaurant, hRider] := by
    intro h hh
    rcases stampIf_cases hRestaurant ctx.restaurantId with h₁ | ⟨u, -, -, h₁⟩ <;>
      rcases stampIf_cases hRider ctx.riderId with h₂ | ⟨v, -, -, h₂⟩ <;>
      · simp only [headersFor, h₁, h₂, List.append_nil, List.cons_append, List.nil_append,
          List.mem_cons, List.not_mem_nil, or_false] at hh
        rcases hh with rfl | rfl | rfl | rfl <;> simp
  intro h hh
  exact (isIdentity_congr rfl).trans (isIdentity_stamped h.1 (hnames h hh))

theorem pairwise_headersFor (ctx : AuthContext) :
    (headersFor ctx).Pairwise fun x y => x.1 ≠ y.1 := by
  have hnames : [hSub, hRoles, hRestaurant, hRider].Pairwise (· ≠ ·) := by decide +kernel
  have hsub : ((headersFor ctx).map (·.1)).Sublist [hSub, hRoles, hRestaurant, hRider] := by
    rcases stampIf_cases hRestaurant ctx.restaurantId with h₁ | ⟨u, -, -, h₁⟩ <;>
      rcases stampIf_cases hRider ctx.riderId with h₂ | ⟨v, -, -, h₂⟩ <;>
      simp [headersFor, h₁, h₂]
  exact List.pairwise_map.mp (hnames.sublist hsub)

/-- **Of the identity headers, exactly what is stamped is forwarded.** -/
theorem identityOf_forwardHeaders (r : Request) {stamped : Headers}
    (htrusted : ∀ h ∈ stamped, isIdentity h = true)
    (hdistinct : stamped.Pairwise fun x y => x.1 ≠ y.1) :
    identityOf (forwardHeaders r stamped) = stamped := by
  have hinbound : identityOf (Dict.update []
      (r.headers.filter fun h => h.1.toLower ∉ dropInbound)) = [] := by
    refine (identityOf_update fun h hh => ?_).trans rfl
    have hdrop := of_decide_eq_true (List.mem_filter.mp hh).2
    refine decide_eq_false fun hname => hdrop ?_
    exact List.mem_append_left _ hname
  have hfresh : ∀ x ∈ stamped, ∀ y ∈ Dict.update []
      (r.headers.filter fun h => h.1.toLower ∉ dropInbound), y.1 ≠ x.1 := by
    intro x hx y hy hname
    have hmem : y ∈ identityOf (Dict.update []
        (r.headers.filter fun h => h.1.toLower ∉ dropInbound)) :=
      List.mem_filter.mpr ⟨hy, (isIdentity_congr hname).trans (htrusted x hx)⟩
    rw [hinbound] at hmem
    cases hmem
  have hbound : ∀ (name : String) (v : Option String), isIdentity (name, "") = false →
      ∀ x ∈ v.toList.map (name, ·), isIdentity x = false := by
    intro name v hname x hx
    obtain ⟨u, -, rfl⟩ := List.mem_map.mp hx
    exact hname
  unfold forwardHeaders
  rw [identityOf_update (hbound _ _ isIdentity_traceparent),
    identityOf_update (hbound _ _ isIdentity_xRequestId), update_append hfresh hdistinct]
  unfold identityOf at hinbound ⊢
  rw [List.filter_append, hinbound, List.nil_append]
  exact List.filter_eq_self.mpr htrusted

theorem stamped_of_authenticate {verify : Verifier} {rule : Rule} {r : Request} {stamped : Headers}
    {scope : String} (h : authenticate verify rule r = .ok (stamped, scope)) :
    stamped = (verifiedContext verify rule r).elim [] headersFor := by
  unfold verifiedContext verifiedClaims presentedToken
  unfold authenticate at h
  split at h
  · next hneeds =>
    rw [if_pos hneeds]
    split at h
    · cases h
    next token htoken =>
    rw [htoken, Option.bind_some]
    split at h
    · cases h
    · cases h
    · cases h
    next claims hverify =>
    rw [hverify]
    split at h
    · cases h
    next ctx hctx =>
    cases h
    simp [Except.toOption, hctx]
  · next hneeds =>
    rw [if_neg hneeds]
    split at h
    · next htoken =>
      cases h
      rw [htoken]
      rfl
    next token htoken =>
    rw [htoken, Option.bind_some]
    split at h
    · next e hverify =>
      cases h
      rw [hverify]
      rfl
    next claims hverify =>
    rw [hverify]
    split at h
    · next hctx =>
      cases h
      simp [Except.toOption, hctx]
    · next ctx hctx =>
      cases h
      simp [Except.toOption, hctx]

/-! ### What a client sends -/

/-- The requests differ in nothing but identity headers. -/
structure SameButIdentity (r r' : Request) : Prop where
  fields : r' = { r with headers := r'.headers }
  headers : restOf r'.headers = restOf r.headers

theorem get_restOf (hs : Headers) {name : String} (h : isIdentity (name, "") = false) :
    (restOf hs).get name = hs.get name := by
  unfold restOf Headers.get
  rw [List.find?_filter]
  congr 2
  funext x
  by_cases hx : x.1.toLower = name.toLower
  · have hx' : isIdentity x = false := by
      unfold isIdentity at h ⊢
      rwa [hx]
    simp [hx, hx']
  · simp [hx]

theorem filter_dropInbound (hs : Headers) : (hs.filter fun h => h.1.toLower ∉ dropInbound) =
    (restOf hs).filter fun h => h.1.toLower ∉ dropInbound := by
  unfold restOf
  rw [List.filter_filter]
  refine List.filter_congr fun x _ => ?_
  by_cases hx : x.1.toLower ∈ dropInbound
  · simp [hx]
  · have hx' : isIdentity x = false :=
      decide_eq_false fun hname => hx (List.mem_append_left _ hname)
    simp [hx, hx']

variable {r r' : Request}

theorem SameButIdentity.get (h : SameButIdentity r r') {name : String}
    (hname : isIdentity (name, "") = false) : r'.headers.get name = r.headers.get name := by
  rw [← get_restOf r'.headers hname, ← get_restOf r.headers hname, h.headers]

theorem SameButIdentity.authenticate (h : SameButIdentity r r') (verify : Verifier) (rule : Rule) :
    authenticate verify rule r' = Edge.authenticate verify rule r := by
  have hforwarded : r'.headers.get "x-forwarded-for" = r.headers.get "x-forwarded-for" :=
    h.get isIdentity_xForwardedFor
  have htoken : r'.headers.get "authorization" = r.headers.get "authorization" :=
    h.get isIdentity_authorization
  have hip : clientIp r' = clientIp r := by
    unfold clientIp
    rw [hforwarded, h.fields]
  have hauthorization : authorization r' = authorization r := by
    unfold authorization
    rw [htoken]
  have hdemanded : demandedToken r' = demandedToken r := by
    unfold demandedToken
    rw [hauthorization]
  have hoffered : offeredToken r' = offeredToken r := by
    unfold offeredToken
    rw [hauthorization]
  have hmethod : r'.method = r.method := by rw [h.fields]
  unfold Edge.authenticate
  rw [hip, hdemanded, hoffered, hmethod]

theorem SameButIdentity.forwardHeaders (h : SameButIdentity r r') (stamped : Headers) :
    forwardHeaders r' stamped = Edge.forwardHeaders r stamped := by
  have hid : r'.requestId = r.requestId := by rw [h.fields]
  have htrace : r'.traceparent = r.traceparent := by rw [h.fields]
  unfold Edge.forwardHeaders
  rw [filter_dropInbound r'.headers, filter_dropInbound r.headers, h.headers, hid, htrace]

/-- **What a client sends of the identity headers changes nothing.** -/
theorem proxy_congr (h : SameButIdentity r r') (settings : Settings) (verify : Verifier)
    (redis : Redis) (now : ℕ) (answers : Bool) :
    proxy settings verify redis now answers r' = proxy settings verify redis now answers r := by
  have hpath : r'.path = r.path := by rw [h.fields]
  have hmethod : r'.method = r.method := by rw [h.fields]
  have hquery : r'.query = r.query := by rw [h.fields]
  have hbody : r'.body = r.body := by rw [h.fields]
  unfold proxy
  simp only [hpath, hmethod, hquery, hbody, h.authenticate, h.forwardHeaders]

/-! ### The way to the upstream -/

/-- The HTTP client and the server behind it carry visible ASCII as it is, in the order of
the headers, and look names up in any case; and of the headers that are trusted they add none. -/
structure Carries (deliver : Headers → Headers) : Prop where
  get : ∀ hs name, isIdentity (name, "") = true →
    (∀ h ∈ hs, h.1.toLower = name.toLower → Text.Visible h.2) →
      (deliver hs).get name = hs.get name

theorem get_identityOf (hs : Headers) {name : String} (h : isIdentity (name, "") = true) :
    (identityOf hs).get name = hs.get name := by
  unfold identityOf Headers.get
  rw [List.find?_filter]
  congr 2
  funext x
  by_cases hx : x.1.toLower = name.toLower
  · have hx' : isIdentity x = true := by
      unfold isIdentity at h ⊢
      rwa [hx]
    simp [hx, hx']
  · simp [hx]

/-- What a role name is like. -/
theorem roleName_plain : ∀ role ∈ roleNames,
    Text.strip role = role ∧ role ≠ "" ∧ ',' ∉ role.toList ∧ Text.Visible role := by
  have hplain : ∀ role : Role, Text.strip role.name = role.name ∧ role.name ≠ "" ∧
      ',' ∉ role.name.toList ∧ Text.Visible role.name := by
    intro role
    cases role
    all_goals
      unfold Text.strip Text.Visible Role.name
      dsimp only
      -- read as a list of characters, the name is quickly decided
      rw [String.toList_ofList]
      refine ⟨rfl, ?_, ?_, ?_⟩
      · decide
      · decide
      · exact @of_decide_eq_true _ (List.decidableBAll _ _) rfl
  intro role hrole
  simp only [roleNames, Finset.mem_insert, Finset.mem_singleton] at hrole
  rcases hrole with rfl | rfl | rfl | rfl | rfl
  all_goals exact hplain _

theorem split_join {held : List String} (hne : held ≠ [])
    (h : ∀ role ∈ held, ',' ∉ role.toList) : Text.split ',' (Text.join ',' held) = held := by
  have hpieces : ∀ l ∈ held.map String.toList, ',' ∉ l := by
    intro l hl
    obtain ⟨role, hrole, rfl⟩ := List.mem_map.mp hl
    exact h role hrole
  unfold Text.split Text.join
  rw [String.toList_ofList, List.splitOn_intercalate ',' hpieces (by simpa using hne), List.map_map]
  simp

theorem visible_join {held : List String} (h : ∀ role ∈ held, Text.Visible role) :
    Text.Visible (Text.join ',' held) := by
  intro c hc
  unfold Text.join at hc
  rw [String.toList_ofList] at hc
  obtain rfl | ⟨l, hl, hc⟩ := Separated.mem_of_mem_intercalate hc
  · decide
  · obtain ⟨role, hrole, rfl⟩ := List.mem_map.mp hl
    exact h role hrole c hc

/-- The stamped headers, looked up one by one. -/
structure Stamps (ctx : AuthContext) (hs : Headers) : Prop where
  sub : hs.get hSub = some ctx.sub
  roles : hs.get hRoles = some (Text.join ',' (ctx.roles.sort (· ≤ ·)))
  restaurantId : hs.get hRestaurant = ctx.restaurantId
  riderId : hs.get hRider = ctx.riderId

theorem stamps_headersFor {ctx : AuthContext} (hrestaurant : ctx.restaurantId ≠ some "")
    (hrider : ctx.riderId ≠ some "") : Stamps ctx (headersFor ctx) := by
  have hstamp : ∀ (name : String) (v : Option String), v ≠ some "" →
      stampIf name v = v.toList.map (name, ·) := by
    intro name v hv
    unfold stampIf
    split
    · rfl
    · exact absurd rfl hv
    · rfl
  unfold headersFor
  rw [hstamp hRestaurant _ hrestaurant, hstamp hRider _ hrider]
  constructor <;> unfold Headers.get <;>
    cases ctx.restaurantId <;> cases ctx.riderId <;>
      simp [toLower_hSub, toLower_hRoles, toLower_hRestaurant, toLower_hRider]

theorem contextFromClaims_presentable {claims : Claims} (h : Presentable claims) :
    ∃ ctx, contextFromClaims claims = some ctx ∧ ctx.sub = claims.sub ∧ ctx.roles ⊆ roleNames ∧
      ctx.restaurantId = claims.restaurantId ∧ ctx.riderId = claims.riderId := by
  obtain ⟨held, hne, hsubset, hroles⟩ := h.roles
  have hset : claims.roles.toFinset = held := by
    rw [hroles]
    exact Finset.sort_toFinset held (· ≤ ·)
  unfold contextFromClaims
  rw [dif_pos (hset ▸ hne)]
  refine ⟨_, rfl, rfl, ?_, rfl, rfl⟩
  show claims.roles.toFinset ⊆ roleNames
  rw [hset]
  exact hsubset

/-- **The upstream rebuilds the context of presentable claims.** -/
theorem getAuthContext_headersFor {deliver : Headers → Headers} (hdeliver : Carries deliver)
    {claims : Claims} (hclaims : Presentable claims) {ctx : AuthContext}
    (hctx : contextFromClaims claims = some ctx) {hs : Headers}
    (hs' : identityOf hs = headersFor ctx) : getAuthContext (deliver hs) = some ctx := by
  obtain ⟨ctx', hctx', hsub, hroles, hrestaurant, hrider⟩ := contextFromClaims_presentable hclaims
  obtain rfl : ctx' = ctx := Option.some.inj (hctx'.symm.trans hctx)
  have hheld : ∀ role ∈ ctx'.roles.sort (· ≤ ·), role ∈ roleNames :=
    fun role hrole => hroles ((Finset.mem_sort _).mp hrole)
  have hstamps : Stamps ctx' (headersFor ctx') := by
    refine stamps_headersFor ?_ ?_
    · rw [hrestaurant]
      exact fun he => (hclaims.restaurantId _ he).ne rfl
    · rw [hrider]
      exact fun he => (hclaims.riderId _ he).ne rfl
  -- everything that is stamped is visible
  have hvisible : ∀ h ∈ headersFor ctx', Text.Visible h.2 := by
    intro h hh
    rcases List.mem_append.mp hh with hh | hh
    · rcases List.mem_append.mp hh with hh | hh
      · rcases List.mem_cons.mp hh with rfl | hh
        · show Text.Visible ctx'.sub
          rw [hsub]
          exact hclaims.sub.visible
        · rw [List.mem_singleton.mp hh]
          exact visible_join fun role hrole => (roleName_plain role (hheld role hrole)).2.2.2
      · exact (hclaims.restaurantId _ (hrestaurant ▸ mem_stampIf hh)).visible
    · exact (hclaims.riderId _ (hrider ▸ mem_stampIf hh)).visible
  have hget : ∀ name, isIdentity (name, "") = true →
      (deliver hs).get name = (headersFor ctx').get name := by
    intro name hname
    rw [hdeliver.get hs name hname, ← get_identityOf hs hname, hs']
    intro h hh hlower
    refine hvisible h ?_
    rw [← hs']
    refine List.mem_filter.mpr ⟨hh, ?_⟩
    unfold isIdentity at hname ⊢
    rwa [hlower]
  have hsorted : ctx'.roles.sort (· ≤ ·) ≠ [] := by
    intro hnil
    obtain ⟨role, hrole⟩ := ctx'.held
    rw [← Finset.mem_sort (· ≤ ·), hnil] at hrole
    cases hrole
  have hsplit : Text.split ',' (Text.join ',' (ctx'.roles.sort (· ≤ ·))) =
      ctx'.roles.sort (· ≤ ·) :=
    split_join hsorted fun role hrole => (roleName_plain role (hheld role hrole)).2.2.1
  have hstrip : (ctx'.roles.sort (· ≤ ·)).map Text.strip = ctx'.roles.sort (· ≤ ·) :=
    (List.map_congr_left fun role hrole => (roleName_plain role (hheld role hrole)).1).trans
      (List.map_id _)
  have hfilter : ((ctx'.roles.sort (· ≤ ·)).filter fun role => role ≠ "") =
      ctx'.roles.sort (· ≤ ·) :=
    List.filter_eq_self.mpr fun role hrole =>
      decide_eq_true (roleName_plain role (hheld role hrole)).2.1
  have hsubne : ctx'.sub ≠ "" := by
    rw [hsub]
    exact hclaims.sub.ne
  unfold getAuthContext
  simp only [hget hSub (isIdentity_stamped _ (by simp)), hget hRoles (isIdentity_stamped _ (by simp)),
    hget hRestaurant (isIdentity_stamped _ (by simp)), hget hRider (isIdentity_stamped _ (by simp)),
    hstamps.sub, hstamps.roles, hstamps.restaurantId, hstamps.riderId, Option.getD_some, hsplit, hstrip, hfilter,
    Finset.sort_toFinset]
  rw [dif_pos ⟨ctx'.held, hroles⟩]

/-- **A client cannot choose its identity.**  Of the identity headers, exactly those of the
verified context are forwarded; what the client sends of them changes nothing; and the
upstream rebuilds the context of every token that identity issues. -/
theorem identity_forwarded {deliver : Headers → Headers} (hdeliver : Carries deliver)
    {settings : Settings} {verify : Verifier} {redis : Redis} {now : ℕ} {answers : Bool}
    {r : Request} {f : Forwarded} (h : (proxy settings verify redis now answers r).1 = .ok f) :
    ∃ rule, matchRule ("/" ++ r.path) = some rule ∧
      identityOf f.headers = (verifiedContext verify rule r).elim [] headersFor ∧
      (∀ r', SameButIdentity r r' →
        proxy settings verify redis now answers r' = proxy settings verify redis now answers r) ∧
      ∀ (c : Config) (purposeOf : ℕ → Purpose) (n : ℕ) (es : List (Event n)) (s : System n),
        Run (step c purposeOf) Administered (.start .empty) es s → ∀ a ∈ s.answers,
          verifiedClaims verify rule r = some a.pair.accessToken →
            contextFromClaims a.pair.accessToken ≠ none ∧
              getAuthContext (deliver f.headers) = contextFromClaims a.pair.accessToken := by
  obtain ⟨rule, stamped, scope, hrule, hauth, rfl⟩ := forwarded_of_proxy h
  have hstamped := stamped_of_authenticate hauth
  have hidentity : identityOf (forwardHeaders r stamped) =
      (verifiedContext verify rule r).elim [] headersFor := by
    rw [hstamped]
    cases verifiedContext verify rule r with
    | none => exact identityOf_forwardHeaders r nofun .nil
    | some ctx =>
      exact identityOf_forwardHeaders r (isIdentity_headersFor ctx) (pairwise_headersFor ctx)
  refine ⟨rule, hrule, hidentity, fun r' hr' => proxy_congr hr' settings verify redis now answers, ?_⟩
  intro c purposeOf n es s hrun a ha hverified
  have hclaims := presentable_of_run hrun a ha
  obtain ⟨ctx, hctx, -⟩ := contextFromClaims_presentable hclaims
  have hverifiedContext : verifiedContext verify rule r = some ctx := by
    unfold verifiedContext
    rw [hverified, Option.bind_some, hctx]
  rw [hverifiedContext] at hidentity
  rw [hctx]
  exact ⟨Option.some_ne_none ctx, getAuthContext_headersFor hdeliver hclaims hctx hidentity⟩

/-! ### A courier's request -/

/-- A server that lower-cases the names. -/
def lowered (hs : Headers) : Headers := hs.map fun h => (h.1.toLower, h.2)

theorem toLower_toLower (s : String) : s.toLower.toLower = s.toLower := by
  have hc : Char.toLower ∘ Char.toLower = Char.toLower := by
    funext c
    have hnot : ¬ (c.toLower.val ≥ 'A'.val ∧ c.toLower.val ≤ 'Z'.val) := by
      unfold Char.toLower
      split <;> grind [UInt32.toNat_add, Char.toNat_val]
    show c.toLower.toLower = c.toLower
    unfold Char.toLower at hnot ⊢
    rw [dif_neg hnot]
  show (s.map Char.toLower).map Char.toLower = s.map Char.toLower
  rw [String.map_map, hc]

theorem get_cons_of_eq {h : String × String} {hs : Headers} {name : String}
    (hname : h.1.toLower = name.toLower) : Headers.get (h :: hs) name = some h.2 := by
  unfold Headers.get
  rw [List.find?_cons_of_pos (by simpa using hname)]
  rfl

theorem get_lowered (hs : Headers) (name : String) : (lowered hs).get name = hs.get name := by
  unfold lowered Headers.get
  rw [List.find?_map, Option.map_map]
  have hsame : (fun h : String × String => decide (h.1.toLower.toLower = name.toLower)) =
      fun h => decide (h.1.toLower = name.toLower) := by
    funext h
    rw [toLower_toLower]
  show (hs.find? fun h => decide (h.1.toLower.toLower = name.toLower)).map _ = _
  rw [hsame]
  rfl

/-- What the HTTP client sends where the proxy has set nothing. -/
def clientHeaders : Headers :=
  [("host", "dispatch:8000"), ("accept", "*/*"), ("accept-encoding", "gzip, deflate"),
    ("connection", "keep-alive"), ("user-agent", "python-httpx")]

def delivered (hs : Headers) : Headers :=
  (clientHeaders.filter fun h => (hs.get h.1).isNone) ++ lowered hs

theorem carries_delivered : Carries delivered := by
  have hclient : ∀ h ∈ clientHeaders, isIdentity h = false := by decide +kernel
  constructor
  intro hs name hname _
  have hnone : ((clientHeaders.filter fun h => (hs.get h.1).isNone).find? fun h =>
      decide (h.1.toLower = name.toLower)) = none := by
    refine List.find?_eq_none.mpr fun h hh hlower => ?_
    have hno := hclient h (List.mem_filter.mp hh).1
    unfold isIdentity at hno hname
    rw [of_decide_eq_true hlower, hname] at hno
    cases hno
  rw [← get_lowered hs name, delivered]
  generalize clientHeaders.filter (fun h => (hs.get h.1).isNone) = added at hnone ⊢
  unfold Headers.get
  rw [List.find?_append, hnone, Option.none_or]

def annUuid : Uuid := ⟨"0123456789abcdef0123456789abcdef", by decide +kernel, by decide +kernel⟩

def annUser : User := ⟨annUuid.userId, "ann@example.com", "pw"⟩

/-- Ann registers, and becomes a courier. -/
def annChanges : List Change :=
  [.register none "ann@example.com" "pw" annUuid, .grantRider (some annUser) {"customer"} annUser.id]

def annAccounts : List Accounts :=
  [⟨[annUser], [(annUser.id, "customer")], []⟩,
    ⟨[annUser], [(annUser.id, "customer"), (annUser.id, "rider")], []⟩]

/-- Her token, and an identity of her own making. -/
def annRequest : Request where
  path := "v1/rider/offers"
  method := "GET"
  headers := [("Authorization", "Bearer t1"), ("x-auth-sub", "usr_root"),
    ("X-AUTH-ROLES", "system"), ("Accept", "*/*")]
  query := ""
  body := ""
  clientHost := some "10.0.0.9"
  requestId := some "req_1"
  traceparent := none

/-- Ann's changes are the only ones. -/
def ByAnn (s : System 2) : Event 2 → Prop
  | .administer accounts => ∃ change ∈ annChanges, change.run s.db.accounts = .ok accounts
  | _ => True

instance (s : System 2) (e : Event 2) : Decidable (ByAnn s e) := by
  unfold ByAnn
  split <;> infer_instance

theorem administered_of_byAnn (s : System 2) (e : Event 2) (h : ByAnn s e) : Administered s e := by
  cases e with
  | administer accounts =>
    obtain ⟨change, hmem, hrun⟩ := h
    refine ⟨change, ?_, hrun⟩
    rcases List.mem_pair.mp hmem with rfl | rfl <;> trivial
  | _ => trivial

theorem identity_forwarded_ann : ∃ (s : System 2) (a : Answer) (f : Forwarded),
    Run (step demoConfig demoPurposes) Administered (.start .empty)
      (annAccounts.map .administer ++ signIn) s ∧ a ∈ s.answers ∧
      (proxy (.standard false) (fun _ => .ok a.pair.accessToken) (fun _ => none) 0 true
        annRequest).1 = .ok f ∧
        contextFromClaims a.pair.accessToken ≠ none ∧
          getAuthContext (delivered f.headers) = contextFromClaims a.pair.accessToken := by
  obtain ⟨s, hrun, hp⟩ : ∃ s : System 2, Run (step demoConfig demoPurposes) ByAnn (.start .empty)
      (annAccounts.map .administer ++ signIn) s ∧ decide (s.answers.length = 1) = true :=
    exists_run_of_execOk (by decide +kernel)
  have hrun := hrun.mono administered_of_byAnn
  obtain ⟨a, ha⟩ := List.length_eq_one_iff.mp (of_decide_eq_true hp)
  have ha : a ∈ s.answers := ha ▸ List.mem_singleton_self a
  obtain ⟨ctx, hctx, -⟩ := contextFromClaims_presentable (presentable_of_run hrun a ha)
  have hmatch : matchRule ("/" ++ annRequest.path) = some ⟨"/v1/rider", .dispatch, .auth, none⟩ := by
    decide +kernel
  have hbearer : authorization annRequest = "Bearer t1" := by
    have hname : "Authorization".toLower = "authorization".toLower :=
      (toLower_eq (t := "authorization") (by decide)).trans (toLower_eq (by decide)).symm
    have hget : annRequest.headers.get "authorization" = some "Bearer t1" := get_cons_of_eq hname
    unfold authorization
    rw [hget]
    rfl
  have htoken : demandedToken annRequest = some "t1" := by
    have hparts : partitionSpace "Bearer t1" = ("Bearer", "t1") := by decide +kernel
    have hscheme : "Bearer".toLower = "bearer" := toLower_eq (by decide)
    unfold demandedToken
    simp only [hbearer, hparts, hscheme]
    decide
  have hauth : authenticate (fun _ => .ok a.pair.accessToken) ⟨"/v1/rider", .dispatch, .auth, none⟩
      annRequest = .ok (headersFor ctx, "sub:" ++ a.pair.accessToken.sub) := by
    unfold authenticate
    rw [htoken]
    simp [needsAuth, hctx]
  have hproxy : (proxy (.standard false) (fun _ => .ok a.pair.accessToken) (fun _ => none) 0 true
      annRequest).1 = .ok ⟨.dispatch, annRequest.path, "GET", "", "",
        forwardHeaders annRequest (headersFor ctx)⟩ :=
    forward_of_allowed hmatch hauth (by simp [check, Settings.standard])
  obtain ⟨rule, hrule, -, -, hissued⟩ := identity_forwarded carries_delivered hproxy
  obtain rfl := Option.some.inj (hrule.symm.trans hmatch)
  have hverified : verifiedClaims (fun _ => .ok a.pair.accessToken)
      ⟨"/v1/rider", .dispatch, .auth, none⟩ annRequest = some a.pair.accessToken := by
    unfold verifiedClaims presentedToken
    simp [needsAuth, htoken, Except.toOption]
  exact ⟨s, a, _, hrun, ha, hproxy, hissued _ _ _ _ s hrun a ha hverified⟩

end Edge
