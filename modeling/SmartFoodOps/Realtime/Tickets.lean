/-
smartfood-realtime: the tickets of the three streaming lanes.

* `trackChannel`, `notifyChannel`, `channelFor` — the channels, which no two lanes share;
* `Ask`, `claimOf` — what a ticket is sold for, and what it then claims;
* `System`, `step` — tickets that are sold and presented in any order, on a clock; whoever presents
  one may present it in any lane, under any path, at any time and any number of times;
* `Kept` — what the store, the sales and the streams have to do with each other;
* `secure_of_run` — a ticket opens one stream at most, within its lifetime, of what it was sold for.

The tickets of a run differ: they are drawn at random when they are sold.
-/
import SmartFoodOps.Auth.Context
import SmartFoodOps.Lib.Machine
import Mathlib.Logic.Function.Basic

open Machine
open Auth (AuthContext Role)

namespace Realtime.Tickets

/-! ### Channels -/

def trackChannel (orderId : String) : String := "sfo:track:" ++ orderId

def notifyPrefix : String := "sfo:notify:"

def notifyChannel (recipientType recipientId : String) : String :=
  notifyPrefix ++ (recipientType ++ ":" ++ recipientId)

def channelFor (messageId : String) : String := "sfo:assist:" ++ messageId

inductive Lane
  | track
  | bell
  | assist
  deriving DecidableEq

/-- The lane that a channel belongs to. -/
def laneOf (channel : String) : Option Lane :=
  match channel.toList.drop 4 with
  | 't' :: _ => some .track
  | 'n' :: _ => some .bell
  | 'a' :: _ => some .assist
  | _ => none

@[simp] theorem laneOf_trackChannel (o : String) : laneOf (trackChannel o) = some .track := by
  unfold laneOf trackChannel
  rw [String.toList_append]
  rfl

@[simp] theorem laneOf_notify (r : String) : laneOf (notifyPrefix ++ r) = some .bell := by
  unfold laneOf
  rw [String.toList_append]
  rfl

@[simp] theorem laneOf_channelFor (m : String) : laneOf (channelFor m) = some .assist := by
  unfold laneOf channelFor
  rw [String.toList_append]
  rfl

theorem append_injective {s t t' : String} (h : s ++ t = s ++ t') : t = t' := by
  have hlist := congrArg String.toList h
  rw [String.toList_append, String.toList_append] at hlist
  exact String.toList_inj.mp (List.append_cancel_left hlist)

/-! ### Sales -/

/-- What a ticket is asked for: an order, one's own bell, or a new message of the assistant. -/
inductive Ask
  | track (orderId : String)
  | bell
  | assist (messageId : String)

/-- `require_role(CUSTOMER, RESTAURANT_ADMIN)`, which the system always passes. -/
def Admitted (ctx : AuthContext) : Prop :=
  Role.system.name ∈ ctx.roles ∨ Role.customer.name ∈ ctx.roles ∨
    Role.restaurantAdmin.name ∈ ctx.roles

instance (ctx : AuthContext) : Decidable (Admitted ctx) :=
  inferInstanceAs (Decidable (_ ∨ _ ∨ _))

/-- `_recipient`. -/
def recipientOf (ctx : AuthContext) : String × String :=
  match ctx.restaurantId with
  | some rid =>
    if Role.restaurantAdmin.name ∈ ctx.roles ∧ rid ≠ "" then ("restaurant", rid)
    else ("customer", ctx.sub)
  | none => ("customer", ctx.sub)

/-- What is stored under a ticket. -/
structure Claim where
  channel : String
  sub : String
  deriving DecidableEq

def claimOf (ctx : AuthContext) : Ask → Claim
  | .track orderId => ⟨trackChannel orderId, ctx.sub⟩
  | .bell => ⟨notifyChannel (recipientOf ctx).1 (recipientOf ctx).2, ctx.sub⟩
  | .assist messageId => ⟨channelFor messageId, ctx.sub⟩

/-! ### The system -/

structure Entry where
  claim : Claim
  expires : ℕ

/-- A ticket that has been sold, and when its claim was stored. -/
structure Sale where
  ticket : String
  claim : Claim
  time : ℕ

/-- What a ticket has been redeemed for; `path` is the id in the path of the request. -/
structure Stream where
  lane : Lane
  path : String
  ticket : String
  channel : String
  sub : String
  time : ℕ
  /-- The response has begun. -/
  started : Bool

structure System where
  now : ℕ
  /-- The user of an order. -/
  owners : String → Option String
  /-- The user whose question a message answers. -/
  turns : String → Option String
  store : String → Option Entry
  /-- The tickets that are sold, and not stored yet. -/
  minted : List (String × Claim)
  sales : List Sale
  /-- The tickets that GETDEL has found. -/
  redeemed : List String
  streams : List Stream

def System.start : System where
  now := 0
  owners := fun _ => none
  turns := fun _ => none
  store := fun _ => none
  minted := []
  sales := []
  redeemed := []
  streams := []

inductive Label
  | tick (seconds : ℕ)
  | place (orderId user : String)
  | ask (ctx : AuthContext) (what : Ask) (ticket : String)
  /-- The claim of a ticket that is sold reaches the store. -/
  | put (i : ℕ)
  | redeem (lane : Lane) (path ticket : String)
  /-- A stream that is redeemed begins. -/
  | begin (i : ℕ)

/-- Whether a ticket may be sold: the order is the caller's, and a message is new. -/
def System.Sells (s : System) (ctx : AuthContext) : Ask → Prop
  | .track orderId => s.owners orderId = some ctx.sub
  | .bell => True
  | .assist messageId => s.turns messageId = none

instance (s : System) (ctx : AuthContext) (what : Ask) : Decidable (s.Sells ctx what) :=
  match what with
  | .track _ => inferInstanceAs (Decidable (_ = _))
  | .bell => inferInstanceAs (Decidable True)
  | .assist _ => inferInstanceAs (Decidable (_ = _))

/-- A question is asked: its answer is the caller's. -/
def System.record (s : System) (ctx : AuthContext) : Ask → System
  | .assist messageId => { s with turns := Function.update s.turns messageId (some ctx.sub) }
  | _ => s

/-- The lane takes a claim: it is for the channel of the path, or for a bell. -/
def accepts (lane : Lane) (path : String) (claim : Claim) : Bool :=
  match lane with
  | .track => claim.channel = trackChannel path
  | .bell => notifyPrefix.toList.isPrefixOf claim.channel.toList
  | .assist => claim.channel = channelFor path

/-- What GETDEL finds. -/
def System.live (s : System) (ticket : String) : Option Entry :=
  (s.store ticket).filter fun e => s.now < e.expires

/-- The order is looked up once more; the other lanes have nothing left to check. -/
def System.Begins (s : System) (st : Stream) : Prop :=
  st.lane = .track → s.owners st.path = some st.sub

instance (s : System) (st : Stream) : Decidable (s.Begins st) :=
  inferInstanceAs (Decidable (_ → _))

/-- GETDEL: the claim is gone, whether the lane takes it or not. -/
def System.getdel (s : System) (ticket : String) : System :=
  { s with
    store := Function.update s.store ticket none
    redeemed := ticket :: s.redeemed }

def step (ttl : ℕ) (s : System) : Label → Option System
  | .tick d => some { s with now := s.now + d }
  | .place orderId user =>
    if s.owners orderId = none then
      some { s with owners := Function.update s.owners orderId (some user) }
    else none
  | .ask ctx what ticket =>
    if Admitted ctx ∧ s.Sells ctx what then
      some { s.record ctx what with minted := (ticket, claimOf ctx what) :: s.minted }
    else none
  | .put i => do
    let (ticket, claim) ← s.minted[i]?
    return { s with
      store := Function.update s.store ticket (some ⟨claim, s.now + ttl⟩)
      minted := s.minted.eraseIdx i
      sales := ⟨ticket, claim, s.now⟩ :: s.sales }
  | .redeem lane path ticket =>
    match s.live ticket with
    | none => some s
    | some e =>
      if accepts lane path e.claim then
        some { s.getdel ticket with
          streams := ⟨lane, path, ticket, e.claim.channel, e.claim.sub, s.now, false⟩ :: s.streams }
      else some (s.getdel ticket)
  | .begin i => do
    let st ← s.streams[i]?
    guard (s.Begins st)
    return { s with streams := s.streams.set i { st with started := true } }

/-- A ticket that is sold has not been sold before. -/
def Fresh (s : System) : Label → Prop
  | .ask _ _ ticket => (∀ m ∈ s.minted, m.1 ≠ ticket) ∧ ∀ sale ∈ s.sales, sale.ticket ≠ ticket
  | _ => True

instance (s : System) (l : Label) : Decidable (Fresh s l) :=
  match l with
  | .ask _ _ _ => inferInstanceAs (Decidable ((∀ m ∈ s.minted, _) ∧ ∀ sale ∈ s.sales, _))
  | .tick _ | .place _ _ | .put _ | .redeem _ _ _ | .begin _ => inferInstanceAs (Decidable True)

/-! ### What a ticket is good for -/

/-- The claim is for something of its user's. -/
inductive Entitled (owners turns : String → Option String) : Claim → Prop
  | track {orderId user : String} (h : owners orderId = some user) :
      Entitled owners turns ⟨trackChannel orderId, user⟩
  | bell {ctx : AuthContext} (h : Admitted ctx) :
      Entitled owners turns ⟨notifyChannel (recipientOf ctx).1 (recipientOf ctx).2, ctx.sub⟩
  | assist {messageId user : String} (h : turns messageId = some user) :
      Entitled owners turns ⟨channelFor messageId, user⟩

/-- What a lane shows, it may show to the user. -/
def Stream.Rightful (s : System) (st : Stream) : Prop :=
  match st.lane with
  | .track => st.channel = trackChannel st.path ∧ s.owners st.path = some st.sub
  | .bell => ∃ ctx, Admitted ctx ∧ ctx.sub = st.sub ∧
      st.channel = notifyChannel (recipientOf ctx).1 (recipientOf ctx).2
  | .assist => st.channel = channelFor st.path ∧ s.turns st.path = some st.sub

structure Secure (ttl : ℕ) (s : System) : Prop where
  /-- A ticket opens one stream at most. -/
  once : (s.streams.map Stream.ticket).Nodup
  /-- It is redeemed within its lifetime, for what it was sold for. -/
  granted : ∀ st ∈ s.streams, st.Rightful s ∧
    ∃ sale ∈ s.sales, sale.ticket = st.ticket ∧ sale.claim = ⟨st.channel, st.sub⟩ ∧
      sale.time ≤ st.time ∧ st.time < sale.time + ttl
  /-- A ticket that was presented once, in whatever lane, is worth nothing. -/
  burned : ∀ ticket ∈ s.redeemed, ∀ lane path, step ttl s (.redeem lane path ticket) = some s
  /-- One that was not, opens its stream as long as it lives. -/
  usable : ∀ sale ∈ s.sales, sale.ticket ∉ s.redeemed → s.now < sale.time + ttl →
    ∃ lane path t, step ttl s (.redeem lane path sale.ticket) = some t ∧
      t.streams = ⟨lane, path, sale.ticket, sale.claim.channel, sale.claim.sub, s.now, false⟩ ::
        s.streams ∧
      ∃ u, step ttl t (.begin 0) = some u

variable {s t : System} {ttl : ℕ} {l : Label} {lane : Lane} {path ticket : String} {claim : Claim}
  {st : Stream}

theorem laneOf_of_accepts (h : accepts lane path claim = true) :
    laneOf claim.channel = some lane := by
  cases lane with
  | track => rw [of_decide_eq_true h, laneOf_trackChannel]
  | bell =>
    obtain ⟨r, hr⟩ := List.isPrefixOf_iff_prefix.mp h
    have hchannel : claim.channel = notifyPrefix ++ String.ofList r := by
      rw [← String.toList_inj, String.toList_append, String.toList_ofList, hr]
    rw [hchannel, laneOf_notify]
  | assist => rw [of_decide_eq_true h, laneOf_channelFor]

theorem laneOf_of_entitled (h : Entitled s.owners s.turns claim) : ∃ lane path, accepts lane path claim = true ∧
    laneOf claim.channel = some lane ∧ (lane = .track → s.owners path = some claim.sub) := by
  cases h with
  | @track orderId user h =>
    exact ⟨.track, orderId, decide_eq_true rfl, laneOf_trackChannel _, fun _ => h⟩
  | bell h =>
    refine ⟨.bell, "", ?_, laneOf_notify _, fun h => by cases h⟩
    refine List.isPrefixOf_iff_prefix.mpr ?_
    rw [notifyChannel, String.toList_append]
    exact List.prefix_append _ _
  | @assist messageId user h =>
    exact ⟨.assist, messageId, decide_eq_true rfl, laneOf_channelFor _, fun h => by cases h⟩

/-- **No lane takes a ticket of another, and none shows what is not the user's.** -/
theorem rightful_of_accepts (he : Entitled s.owners s.turns claim) (ha : accepts lane path claim = true)
    (time : ℕ) (started : Bool) :
    Stream.Rightful s ⟨lane, path, ticket, claim.channel, claim.sub, time, started⟩ := by
  have hlane := laneOf_of_accepts ha
  cases he with
  | track h =>
    rw [laneOf_trackChannel] at hlane
    cases hlane
    have hchannel := of_decide_eq_true ha
    exact ⟨hchannel, append_injective hchannel ▸ h⟩
  | @bell ctx h =>
    rw [notifyChannel, laneOf_notify] at hlane
    cases hlane
    exact ⟨ctx, h, rfl, rfl⟩
  | assist h =>
    rw [laneOf_channelFor] at hlane
    cases hlane
    have hchannel := of_decide_eq_true ha
    exact ⟨hchannel, append_injective hchannel ▸ h⟩

/-! ### The invariant -/

/-- What is known stays. -/
def Grows (f f' : String → Option String) : Prop := ∀ k v, f k = some v → f' k = some v

theorem grows_update {f : String → Option String} {k v : String} (h : f k = none) :
    Grows f (Function.update f k (some v)) := by
  intro k' v' hv
  by_cases hk : k' = k
  · subst hk
    cases h.symm.trans hv
  · rw [Function.update_of_ne hk]
    exact hv

theorem Entitled.grow (h : Entitled s.owners s.turns claim) (ho : Grows s.owners t.owners)
    (ht : Grows s.turns t.turns) : Entitled t.owners t.turns claim := by
  cases h with
  | track h => exact .track (ho _ _ h)
  | bell h => exact .bell h
  | assist h => exact .assist (ht _ _ h)

theorem Stream.Rightful.grow (h : st.Rightful s) (ho : Grows s.owners t.owners)
    (ht : Grows s.turns t.turns) : st.Rightful t := by
  obtain ⟨lane, path, ticket, channel, sub, time, started⟩ := st
  cases lane with
  | track => exact ⟨h.1, ho _ _ h.2⟩
  | bell => exact h
  | assist => exact ⟨h.1, ht _ _ h.2⟩

structure Kept (ttl : ℕ) (s : System) : Prop where
  distinct : (s.minted.map Prod.fst ++ s.sales.map Sale.ticket).Nodup
  mintedFor : ∀ m ∈ s.minted, Entitled s.owners s.turns m.2
  soldFor : ∀ sale ∈ s.sales, Entitled s.owners s.turns sale.claim
  past : ∀ sale ∈ s.sales, sale.time ≤ s.now
  /-- What the store has was sold, and not redeemed. -/
  stored : ∀ ticket e, s.store ticket = some e → ticket ∉ s.redeemed ∧
    ∃ sale ∈ s.sales, sale.ticket = ticket ∧ e = ⟨sale.claim, sale.time + ttl⟩
  /-- And what was sold is there, or redeemed. -/
  kept : ∀ sale ∈ s.sales, sale.ticket ∉ s.redeemed →
    s.store sale.ticket = some ⟨sale.claim, sale.time + ttl⟩
  redeemed : ∀ ticket ∈ s.redeemed, ∃ sale ∈ s.sales, sale.ticket = ticket
  once : (s.streams.map Stream.ticket).Nodup
  spent : ∀ st ∈ s.streams, st.ticket ∈ s.redeemed
  granted : ∀ st ∈ s.streams, st.Rightful s ∧
    ∃ sale ∈ s.sales, sale.ticket = st.ticket ∧ sale.claim = ⟨st.channel, st.sub⟩ ∧
      sale.time ≤ st.time ∧ st.time < sale.time + ttl

theorem kept_start : Kept ttl System.start where
  distinct := List.nodup_nil
  mintedFor := fun _ h => absurd h List.not_mem_nil
  soldFor := fun _ h => absurd h List.not_mem_nil
  past := fun _ h => absurd h List.not_mem_nil
  stored := fun _ _ h => by cases h
  kept := fun _ h => absurd h List.not_mem_nil
  redeemed := fun _ h => absurd h List.not_mem_nil
  once := List.nodup_nil
  spent := fun _ h => absurd h List.not_mem_nil
  granted := fun _ h => absurd h List.not_mem_nil

/-- Orders are placed and questions asked. -/
theorem Kept.grow (h : Kept ttl s) {owners turns : String → Option String}
    (ho : Grows s.owners owners) (ht : Grows s.turns turns) :
    Kept ttl { s with owners := owners, turns := turns } where
  distinct := h.distinct
  mintedFor := fun m hm => (h.mintedFor m hm).grow ho ht
  soldFor := fun sale hs => (h.soldFor sale hs).grow ho ht
  past := h.past
  stored := h.stored
  kept := h.kept
  redeemed := h.redeemed
  once := h.once
  spent := h.spent
  granted := fun st hst => (h.granted st hst).imp_left (·.grow ho ht)

theorem Kept.tick (h : Kept ttl s) (d : ℕ) : Kept ttl { s with now := s.now + d } where
  distinct := h.distinct
  mintedFor := h.mintedFor
  soldFor := h.soldFor
  past := fun sale hs => (h.past sale hs).trans (Nat.le_add_right _ _)
  stored := h.stored
  kept := h.kept
  redeemed := h.redeemed
  once := h.once
  spent := h.spent
  granted := h.granted

/-- A ticket is sold. -/
theorem Kept.mint (h : Kept ttl s) (hm : ∀ m ∈ s.minted, m.1 ≠ ticket)
    (hs : ∀ sale ∈ s.sales, sale.ticket ≠ ticket) (he : Entitled s.owners s.turns claim) :
    Kept ttl { s with minted := (ticket, claim) :: s.minted } where
  distinct := by
    refine List.nodup_cons.mpr ⟨fun hmem => ?_, h.distinct⟩
    rcases List.mem_append.mp hmem with hmem | hmem
    · obtain ⟨m, hmm, hmt⟩ := List.mem_map.mp hmem
      exact hm m hmm hmt
    · obtain ⟨sale, hsale, hst⟩ := List.mem_map.mp hmem
      exact hs sale hsale hst
  mintedFor := by
    intro m hmem
    rcases List.mem_cons.mp hmem with rfl | hmem
    · exact he
    · exact h.mintedFor m hmem
  soldFor := h.soldFor
  past := h.past
  stored := h.stored
  kept := h.kept
  redeemed := h.redeemed
  once := h.once
  spent := h.spent
  granted := h.granted

/-- Its claim is stored. -/
theorem Kept.put (h : Kept ttl s) {i : ℕ} (hi : s.minted[i]? = some (ticket, claim)) :
    Kept ttl { s with
      store := Function.update s.store ticket (some ⟨claim, s.now + ttl⟩)
      minted := s.minted.eraseIdx i
      sales := ⟨ticket, claim, s.now⟩ :: s.sales } := by
  have hmem : (ticket, claim) ∈ s.minted := List.mem_of_getElem? hi
  have hnew : ∀ sale ∈ s.sales, sale.ticket ≠ ticket := fun sale hs heq =>
    (List.nodup_append.mp h.distinct).2.2 _ (List.mem_map_of_mem hmem) _
      (List.mem_map_of_mem hs) heq.symm
  have hperm : (s.minted.map Prod.fst).Perm
      (ticket :: (s.minted.eraseIdx i).map Prod.fst) := by
    obtain ⟨hlt, hget⟩ := List.getElem?_eq_some_iff.mp hi
    have hp := (List.getElem_cons_eraseIdx_perm hlt).symm.map Prod.fst
    rwa [hget] at hp
  refine ⟨?_, fun m hm => h.mintedFor m (List.mem_of_mem_eraseIdx hm), fun sale hs => ?_,
    fun sale hs => ?_, fun ticket' e he => ?_, fun sale hs hr => ?_, fun ticket' ht => ?_, h.once,
    h.spent, fun st hst => ?_⟩
  · refine (List.Perm.nodup_iff ?_).mp h.distinct
    exact (hperm.append_right _).trans List.perm_middle.symm
  · rcases List.mem_cons.mp hs with rfl | hs
    · exact h.mintedFor _ hmem
    · exact h.soldFor sale hs
  · rcases List.mem_cons.mp hs with rfl | hs
    · exact le_refl _
    · exact h.past sale hs
  · by_cases heq : ticket' = ticket
    · subst heq
      cases (Function.update_self _ _ _).symm.trans he
      refine ⟨fun hr => ?_, _, List.mem_cons_self, rfl, rfl⟩
      obtain ⟨sale, hs, hst⟩ := h.redeemed _ hr
      exact hnew sale hs hst
    · have hold := (Function.update_of_ne heq _ _).symm.trans he
      obtain ⟨hr, sale, hs, hrest⟩ := h.stored ticket' e hold
      exact ⟨hr, sale, List.mem_cons_of_mem _ hs, hrest⟩
  · rcases List.mem_cons.mp hs with rfl | hs
    · exact Function.update_self _ _ _
    · exact (Function.update_of_ne (hnew sale hs) _ _).trans (h.kept sale hs hr)
  · obtain ⟨sale, hs, hst⟩ := h.redeemed ticket' ht
    exact ⟨sale, List.mem_cons_of_mem _ hs, hst⟩
  · obtain ⟨hr, sale, hs, hrest⟩ := h.granted st hst
    exact ⟨hr, sale, List.mem_cons_of_mem _ hs, hrest⟩

/-- GETDEL finds it. -/
theorem Kept.getdel (h : Kept ttl s) {e : Entry} (he : s.store ticket = some e) :
    Kept ttl (s.getdel ticket) where
  distinct := h.distinct
  mintedFor := h.mintedFor
  soldFor := h.soldFor
  past := h.past
  stored := by
    intro ticket' e' he'
    by_cases heq : ticket' = ticket
    · subst heq
      cases (Function.update_self _ _ _).symm.trans he'
    · have hold := (Function.update_of_ne heq _ _).symm.trans he'
      obtain ⟨hr, hsale⟩ := h.stored ticket' e' hold
      exact ⟨fun hmem => (List.mem_cons.mp hmem).elim heq hr, hsale⟩
  kept := by
    intro sale hs hr
    have hne : sale.ticket ≠ ticket := fun heq => hr (heq ▸ List.mem_cons_self)
    exact (Function.update_of_ne hne _ _).trans
      (h.kept sale hs fun hmem => hr (List.mem_cons_of_mem _ hmem))
  redeemed := by
    intro ticket' ht
    rcases List.mem_cons.mp ht with rfl | ht
    · obtain ⟨-, sale, hs, hst, -⟩ := h.stored _ e he
      exact ⟨sale, hs, hst⟩
    · exact h.redeemed ticket' ht
  once := h.once
  spent := fun st hst => List.mem_cons_of_mem _ (h.spent st hst)
  granted := h.granted

/-- A stream is redeemed. -/
theorem Kept.stream (h : Kept ttl s) (hr : st.ticket ∈ s.redeemed)
    (hnew : ∀ st' ∈ s.streams, st'.ticket ≠ st.ticket) (hst : st.Rightful s)
    (hsale : ∃ sale ∈ s.sales, sale.ticket = st.ticket ∧ sale.claim = ⟨st.channel, st.sub⟩ ∧
      sale.time ≤ st.time ∧ st.time < sale.time + ttl) :
    Kept ttl { s with streams := st :: s.streams } where
  distinct := h.distinct
  mintedFor := h.mintedFor
  soldFor := h.soldFor
  past := h.past
  stored := h.stored
  kept := h.kept
  redeemed := h.redeemed
  once := by
    refine List.nodup_cons.mpr ⟨fun hmem => ?_, h.once⟩
    obtain ⟨st', hst', heq⟩ := List.mem_map.mp hmem
    exact hnew st' hst' heq
  spent := by
    intro st' hmem
    rcases List.mem_cons.mp hmem with rfl | hmem
    · exact hr
    · exact h.spent st' hmem
  granted := by
    intro st' hmem
    rcases List.mem_cons.mp hmem with rfl | hmem
    · exact ⟨hst, hsale⟩
    · exact h.granted st' hmem

/-- And begins. -/
theorem Kept.begin (h : Kept ttl s) {i : ℕ} (hi : s.streams[i]? = some st) :
    Kept ttl { s with streams := s.streams.set i { st with started := true } } := by
  have hmem : st ∈ s.streams := List.mem_of_getElem? hi
  have htickets : (s.streams.set i { st with started := true }).map Stream.ticket =
      s.streams.map Stream.ticket := by
    obtain ⟨hlt, rfl⟩ := List.getElem?_eq_some_iff.mp hi
    rw [List.map_set]
    refine List.ext_getElem? fun j => ?_
    rw [List.getElem?_set]
    split
    · next heq =>
      subst heq
      rw [if_pos (by rwa [List.length_map]), List.getElem?_map, hi]
      rfl
    · rfl
  refine ⟨h.distinct, h.mintedFor, h.soldFor, h.past, h.stored, h.kept, h.redeemed, ?_,
    fun st' hst' => ?_, fun st' hst' => ?_⟩
  · rw [htickets]
    exact h.once
  · rcases List.mem_or_eq_of_mem_set hst' with hst' | rfl
    · exact h.spent st' hst'
    · exact h.spent st hmem
  · rcases List.mem_or_eq_of_mem_set hst' with hst' | rfl
    · exact h.granted st' hst'
    · exact h.granted st hmem

theorem live_eq_some {e : Entry} (h : s.live ticket = some e) :
    s.store ticket = some e ∧ s.now < e.expires := by
  obtain ⟨hstore, hlt⟩ := Option.filter_eq_some_iff.mp h
  exact ⟨hstore, of_decide_eq_true hlt⟩

theorem entitled_claimOf {ctx : AuthContext} {what : Ask} (ha : Admitted ctx)
    (hs : s.Sells ctx what) :
    Entitled (s.record ctx what).owners (s.record ctx what).turns (claimOf ctx what) := by
  cases what with
  | track orderId => exact .track hs
  | bell => exact .bell ha
  | assist messageId => exact .assist (Function.update_self _ _ _)

theorem Kept.record (h : Kept ttl s) {ctx : AuthContext} {what : Ask} (hs : s.Sells ctx what) :
    Kept ttl (s.record ctx what) := by
  cases what with
  | track orderId => exact h
  | bell => exact h
  | assist messageId => exact h.grow (fun _ _ hk => hk) (grows_update hs)

theorem kept_step (h : Kept ttl s) (hf : Fresh s l) (hs : step ttl s l = some t) : Kept ttl t := by
  cases l with
  | tick d =>
    cases hs
    exact h.tick d
  | place orderId user =>
    simp only [step] at hs
    split at hs
    · next hnone =>
      cases hs
      exact h.grow (grows_update hnone) fun _ _ hk => hk
    · cases hs
  | ask ctx what ticket =>
    simp only [step] at hs
    split at hs
    · next hask =>
      cases hs
      have hsame : (s.record ctx what).minted = s.minted ∧ (s.record ctx what).sales = s.sales := by
        cases what <;> exact ⟨rfl, rfl⟩
      rw [← hsame.1]
      refine (h.record hask.2).mint (fun m hm => ?_) (fun sale hsale => ?_)
        (entitled_claimOf hask.1 hask.2)
      · exact hf.1 m (hsame.1 ▸ hm)
      · exact hf.2 sale (hsame.2 ▸ hsale)
    · cases hs
  | put i =>
    obtain ⟨⟨ticket, claim⟩, hi, hs⟩ := Option.bind_eq_some_iff.mp hs
    cases hs
    exact h.put hi
  | redeem lane path ticket =>
    simp only [step] at hs
    split at hs
    · cases hs
      exact h
    · next e he =>
      obtain ⟨hstore, hlt⟩ := live_eq_some he
      obtain ⟨hr, sale, hsale, rfl, rfl⟩ := h.stored ticket e hstore
      split at hs
      · next ha =>
        cases hs
        refine (h.getdel hstore).stream List.mem_cons_self (fun st' hst' heq => ?_)
          (rightful_of_accepts (h.soldFor sale hsale) ha _ _)
          ⟨sale, hsale, rfl, rfl, h.past sale hsale, hlt⟩
        have hspent := h.spent st' hst'
        rw [heq] at hspent
        exact hr hspent
      · cases hs
        exact h.getdel hstore
  | begin i =>
    obtain ⟨st, hi, hs⟩ := Option.bind_eq_some_iff.mp hs
    obtain ⟨_, -, hs⟩ := Option.bind_eq_some_iff.mp hs
    cases hs
    exact h.begin hi

/-! ### Every run -/

theorem Kept.not_live (h : Kept ttl s) (hr : ticket ∈ s.redeemed) : s.live ticket = none := by
  cases hl : s.live ticket with
  | none => rfl
  | some e => exact absurd hr (h.stored ticket e (live_eq_some hl).1).1

/-- What has been sold and not been presented opens its stream. -/
theorem Kept.usable (h : Kept ttl s) {sale : Sale} (hs : sale ∈ s.sales)
    (hr : sale.ticket ∉ s.redeemed) (hlt : s.now < sale.time + ttl) :
    ∃ lane path t, step ttl s (.redeem lane path sale.ticket) = some t ∧
      t.streams = ⟨lane, path, sale.ticket, sale.claim.channel, sale.claim.sub, s.now, false⟩ ::
        s.streams ∧
      ∃ u, step ttl t (.begin 0) = some u := by
  obtain ⟨lane, path, ha, -, howner⟩ := laneOf_of_entitled (h.soldFor sale hs)
  have hlive : s.live sale.ticket = some ⟨sale.claim, sale.time + ttl⟩ :=
    Option.filter_eq_some_iff.mpr ⟨h.kept sale hs hr, decide_eq_true hlt⟩
  let st : Stream :=
    ⟨lane, path, sale.ticket, sale.claim.channel, sale.claim.sub, s.now, false⟩
  refine ⟨lane, path, { s.getdel sale.ticket with streams := st :: s.streams }, ?_, rfl, ?_⟩
  · simp only [step]
    rw [hlive]
    exact if_pos ha
  · have hb : System.Begins { s.getdel sale.ticket with streams := st :: s.streams } st := howner
    simp only [step, List.getElem?_cons_zero, Option.bind_eq_bind, Option.bind_some, guard,
      if_pos hb]
    exact ⟨_, rfl⟩

/-- **A ticket opens one stream at most, of what it was sold for.** -/
theorem secure_of_run {ls : List Label} (h : Run (step ttl) Fresh System.start ls t) :
    Secure ttl t := by
  have hk : Kept ttl t := h.invariant kept_start fun _ _ _ hi hf hs => kept_step hi hf hs
  refine ⟨hk.once, hk.granted, fun ticket hr lane path => ?_, fun sale hs hr hlt =>
    hk.usable hs hr hlt⟩
  simp only [step]
  rw [hk.not_live hr]

/-! ### A ticket that is tried at the wrong door -/

def diner : AuthContext := ⟨"u1", {"customer"}, none, none, Finset.singleton_nonempty _⟩

/-- Two tickets are sold; one is tried in the wrong lane, then everywhere, and the other is redeemed
twice. -/
def wrongDoor : List Label :=
  [.place "o1" "u1", .ask diner (.track "o1") "t1", .ask diner .bell "t2", .put 0, .tick 3, .put 0,
    .redeem .track "o1" "t2", .redeem .bell "" "t2", .tick 20, .redeem .track "o1" "t1",
    .redeem .track "o1" "t1", .begin 0]

theorem secure_of_run_wrongDoor : ∃ s, Run (step 60) Fresh System.start wrongDoor s ∧
    (s.streams.map Stream.ticket = ["t1"] ∧ s.redeemed = ["t1", "t2"]) ∧ Secure 60 s := by
  obtain ⟨s, hrun, hp⟩ : ∃ s, Run (step 60) Fresh System.start wrongDoor s ∧
      decide (s.streams.map Stream.ticket = ["t1"] ∧ s.redeemed = ["t1", "t2"]) = true :=
    exists_run_of_execOk (by decide +kernel)
  exact ⟨s, hrun, of_decide_eq_true hp, secure_of_run hrun⟩

end Realtime.Tickets
