/-
Who gets an offer: the index of riders, the search, and the ranking.

* `Index`, `Command` — the three keys of a rider; `update` and `remove` are pipelines, whose commands
  other pipelines can come between;
* `World`, `step` — positions that are sent through the socket or by going online, pipelines that are
  executed command by command or lost, on a clock;
* `Found`, `search` — what GEOSEARCH finds, and what is left of it;
* `Rounding` — floats: the result of every operation is rounded;
* `acceptanceRate`, `score`, `rank` — the ranking of the candidates;
* `cascade` — `find_and_offer`, from the search on; others write between its store calls;
* `rank_perm` — every node ranks alike;
* `offered_of_run` — an offer goes to the best of the riders that could take it when asked, who is
  alive, near and not excluded; and if there is none, to nobody.

The points are those that the index keeps; distances are as the index computes and reports them.
-/
import SmartFoodOps.Dispatch.Service
import SmartFoodOps.Lib.Machine
import Mathlib.Algebra.Order.Field.Rat
import Mathlib.Data.Prod.Lex
import Mathlib.Data.List.Sort
import Mathlib.Data.String.Basic
import Mathlib.Tactic.Linarith

open Machine

namespace Dispatch.Candidates

variable {P : Type}

/-! ### The index -/

inductive Command (P : Type)
  | geoadd (rider : RiderId) (point : P)
  | setLoc (rider : RiderId) (point : P)
  | setBeat (rider : RiderId)
  | zrem (rider : RiderId)
  | deleteLoc (rider : RiderId)
  | deleteBeat (rider : RiderId)

/-- `update`, and the gateway's `ping`. -/
def update (rider : RiderId) (point : P) : List (Command P) :=
  [.geoadd rider point, .setLoc rider point, .setBeat rider]

def remove (rider : RiderId) : List (Command P) := [.zrem rider, .deleteLoc rider, .deleteBeat rider]

/-- The keys of the riders; a key that expires has the time from which it is gone. -/
structure Index (P : Type) where
  pins : RiderId → Option P
  locs : RiderId → Option (P × ℕ)
  beats : RiderId → Option ℕ

def locTtl : ℕ := 30
def beatTtl : ℕ := 90

def Index.exec (now : ℕ) (x : Index P) : Command P → Index P
  | .geoadd r p => { x with pins := Function.update x.pins r (some p) }
  | .setLoc r p => { x with locs := Function.update x.locs r (some (p, now + locTtl)) }
  | .setBeat r => { x with beats := Function.update x.beats r (some (now + beatTtl)) }
  | .zrem r => { x with pins := Function.update x.pins r none }
  | .deleteLoc r => { x with locs := Function.update x.locs r none }
  | .deleteBeat r => { x with beats := Function.update x.beats r none }

structure World (P : Type) where
  now : ℕ
  index : Index P
  /-- What is left of the pipelines that are on their way. -/
  pipelines : List (List (Command P))
  /-- The positions that riders have sent. -/
  fixes : List (RiderId × P)
  /-- When heartbeats were written. -/
  beaten : List (RiderId × ℕ)

def World.start : World P := ⟨0, ⟨fun _ => none, fun _ => none, fun _ => none⟩, [], [], []⟩

inductive Label (P : Type)
  | tick (seconds : ℕ)
  | fix (rider : RiderId) (point : P)
  | offline (rider : RiderId)
  /-- The next command of a pipeline is executed. -/
  | exec (i : ℕ)
  /-- The rest of a pipeline is lost. -/
  | lose (i : ℕ)

/-- The heartbeat that a command writes. -/
def beatOf (now : ℕ) : Command P → List (RiderId × ℕ)
  | .setBeat r => [(r, now)]
  | _ => []

def step (w : World P) : Label P → Option (World P)
  | .tick d => some { w with now := w.now + d }
  | .fix r p =>
    some { w with pipelines := update r p :: w.pipelines, fixes := (r, p) :: w.fixes }
  | .offline r => some { w with pipelines := remove r :: w.pipelines }
  | .exec i =>
    match w.pipelines[i]? with
    | some (c :: rest) =>
      some { w with
        index := w.index.exec w.now c
        pipelines := w.pipelines.set i rest
        beaten := beatOf w.now c ++ w.beaten }
    | _ => none
  | .lose i => some { w with pipelines := w.pipelines.eraseIdx i }

/-- The heartbeat is there. -/
def World.alive (w : World P) (r : RiderId) : Bool := (w.index.beats r).any fun e => w.now < e

/-- `latest`. -/
def World.latest (w : World P) (r : RiderId) : Option P :=
  ((w.index.locs r).filter fun l => w.now < l.2).map Prod.fst

/-! ### The search -/

/-- The distances that the index computes, and how it reports them (with four decimals). -/
structure Metric (P : Type) where
  distance : P → P → ℚ
  report : ℚ → ℚ
  nonneg : ∀ p q, 0 ≤ report (distance p q)

/-- What GEOSEARCH answers: the pins within the radius with their distances, the nearest first. -/
structure Found (m : Metric P) (x : Index P) (center : P) (radius : ℚ)
    (found : List (RiderId × ℚ)) : Prop where
  mem_iff : ∀ r d, (r, d) ∈ found ↔
    ∃ p, x.pins r = some p ∧ m.report (m.distance p center) = d ∧ m.distance p center ≤ radius
  nearest : found.Pairwise fun a b => a.2 ≤ b.2

/-- The floats among the rationals: what the exact result of an operation is rounded to.  Nothing
here comes near the largest of them. -/
structure Rounding where
  round : ℚ → ℚ
  monotone : Monotone round
  round_round : ∀ x, round (round x) = round x
  zero : round 0 = 0
  half : round (1 / 2) = 1 / 2
  one : round 1 = 1
  threeHalves : round (3 / 2) = 3 / 2

section

variable (fl : Rounding)

/-- `search`, from GEOSEARCH on; distances are in kilometres before it and in metres after it. -/
def search (found : List (RiderId × ℚ)) (exclude : List RiderId) (alive : RiderId → Bool) :
    List (RiderId × ℚ) :=
  ((found.filter fun f => f.1 ∉ exclude).map fun f => (f.1, fl.round (f.2 * 1000))).filter
    fun c => alive c.1

/-! ### The ranking -/

structure Candidate where
  riderId : RiderId
  distance : ℚ
  offersMade : ℕ
  offersAccepted : ℕ
  deriving DecidableEq

/-- A rider without history is a perfect accepter. -/
def acceptanceRate (offersMade offersAccepted : ℕ) : ℚ :=
  if offersMade = 0 then 1 else min 1 (fl.round (offersAccepted / offersMade))

def acceptanceWeight : ℚ := 1 / 2

/-- Lower is better; four operations, and each of them rounds. -/
def score (c : Candidate) : ℚ :=
  let rate := acceptanceRate fl c.offersMade c.offersAccepted
  fl.round (c.distance * fl.round (1 + fl.round (acceptanceWeight * fl.round (1 - rate))))

def Candidate.key (c : Candidate) : ℚ ×ₗ String := toLex (score fl c, c.riderId)

def rank (cs : List Candidate) : List Candidate :=
  cs.insertionSort fun a b => a.key fl ≤ b.key fl

/-- With the statistics of the first eight; each is read on its own, from the tables as they are then. -/
def candidatesOf (tables : ℕ → Tables) (nearby : List (RiderId × ℚ)) : List Candidate :=
  (nearby.take 8).mapIdx fun i c =>
    ⟨c.1, c.2, ((tables i).riders c.1).offersMade, ((tables i).riders c.1).offersAccepted⟩

/-- The loop over the ranking; the i-th store call of the cascade sees the i-th tables. -/
def offerFrom (cap : ℕ) (tables : ℕ → Tables) (order : OrderId) :
    ℕ → List (RiderId × OfferId) → Outcome
  | _, [] => .noCandidates
  | i, (rider, offer) :: candidates =>
    match (tables i).reserve cap rider offer order with
    | (_, false) => offerFrom cap tables order (i + 1) candidates
    | (_, true) => .offered offer rider

/-- `find_and_offer`, from the search on, among whatever others do; `mint` draws the ids of the
offers. -/
def cascade (cap : ℕ) (tables : ℕ → Tables) (order : OrderId) (mint : RiderId → OfferId)
    (nearby : List (RiderId × ℚ)) : Outcome :=
  let candidates := candidatesOf tables nearby
  offerFrom cap tables order candidates.length
    ((rank fl candidates).map fun c => (c.riderId, mint c.riderId))

end

/-! ### What the index says -/

variable {w w' : World P} {r rider : RiderId} {p : P} {now : ℕ} {c : Command P} {x : Index P}

/-- What a command writes has been sent by the rider. -/
def Command.Backed (fixes : List (RiderId × P)) : Command P → Prop
  | .geoadd r p | .setLoc r p => (r, p) ∈ fixes
  | _ => True

structure Backed (w : World P) : Prop where
  commands : ∀ cs ∈ w.pipelines, ∀ c ∈ cs, c.Backed w.fixes
  pins : ∀ r p, w.index.pins r = some p → (r, p) ∈ w.fixes
  locs : ∀ r p e, w.index.locs r = some (p, e) → (r, p) ∈ w.fixes
  beats : ∀ r e, w.index.beats r = some e → ∃ t, (r, t) ∈ w.beaten ∧ e = t + beatTtl

theorem Command.Backed.mono {fixes fixes' : List (RiderId × P)} (h : c.Backed fixes)
    (hsub : fixes ⊆ fixes') : c.Backed fixes' := by
  cases c with
  | geoadd r p => exact hsub h
  | setLoc r p => exact hsub h
  | _ => trivial

theorem backed_start : Backed (World.start : World P) := by
  refine ⟨fun cs h => absurd h List.not_mem_nil, fun r p h => ?_, fun r p e h => ?_,
    fun r e h => ?_⟩
  all_goals cases h

/-- A pipeline starts. -/
theorem Backed.start (h : Backed w) {cs : List (Command P)} {fixes : List (RiderId × P)}
    (hsub : w.fixes ⊆ fixes) (hcs : ∀ c ∈ cs, c.Backed fixes) :
    Backed { w with pipelines := cs :: w.pipelines, fixes := fixes } := by
  refine ⟨fun cs' hmem => ?_, fun r p hp => hsub (h.pins r p hp),
    fun r p e hp => hsub (h.locs r p e hp), h.beats⟩
  rcases List.mem_cons.mp hmem with rfl | hmem
  · exact hcs
  · exact fun c hc => (h.commands cs' hmem c hc).mono hsub

/-- A key of one rider is written. -/
theorem update_cases {α : Type} {f : RiderId → Option α} {v : Option α} {a : α}
    (h : Function.update f r v rider = some a) : rider = r ∧ v = some a ∨ f rider = some a := by
  by_cases heq : rider = r
  · rw [heq, Function.update_self] at h
    exact .inl ⟨heq, h⟩
  · rw [Function.update_of_ne heq] at h
    exact .inr h

theorem Backed.exec (h : Backed w) {i : ℕ} {rest : List (Command P)}
    (hi : w.pipelines[i]? = some (c :: rest)) : Backed { w with
      index := w.index.exec w.now c
      pipelines := w.pipelines.set i rest
      beaten := beatOf w.now c ++ w.beaten } := by
  have hmem : c :: rest ∈ w.pipelines := List.mem_of_getElem? hi
  have hc : c.Backed w.fixes := h.commands _ hmem c List.mem_cons_self
  have hold : ∀ r e, w.index.beats r = some e →
      ∃ t, (r, t) ∈ beatOf w.now c ++ w.beaten ∧ e = t + beatTtl := fun r e he => by
    obtain ⟨t, ht, he⟩ := h.beats r e he
    exact ⟨t, List.mem_append_right _ ht, he⟩
  refine ⟨fun cs hcs => ?_, fun r p hp => ?_, fun r p e hp => ?_, fun r e he => ?_⟩
  · rcases List.mem_or_eq_of_mem_set hcs with hcs | rfl
    · exact h.commands cs hcs
    · exact fun c' hc' => h.commands _ hmem c' (List.mem_cons_of_mem _ hc')
  · cases c with
    | geoadd r' p' =>
      rcases update_cases hp with ⟨rfl, hv⟩ | hp
      · cases hv
        exact hc
      · exact h.pins r p hp
    | zrem r' =>
      rcases update_cases hp with ⟨-, hv⟩ | hp
      · cases hv
      · exact h.pins r p hp
    | _ => exact h.pins r p hp
  · cases c with
    | setLoc r' p' =>
      rcases update_cases hp with ⟨rfl, hv⟩ | hp
      · cases hv
        exact hc
      · exact h.locs r p e hp
    | deleteLoc r' =>
      rcases update_cases hp with ⟨-, hv⟩ | hp
      · cases hv
      · exact h.locs r p e hp
    | _ => exact h.locs r p e hp
  · cases c with
    | setBeat r' =>
      rcases update_cases he with ⟨rfl, hv⟩ | he
      · cases hv
        exact ⟨w.now, List.mem_cons_self, rfl⟩
      · exact hold r e he
    | deleteBeat r' =>
      rcases update_cases he with ⟨-, hv⟩ | he
      · cases hv
      · exact hold r e he
    | _ => exact hold r e he

theorem backed_step {l : Label P} (h : Backed w) (hs : step w l = some w') : Backed w' := by
  cases l with
  | tick d =>
    cases hs
    exact ⟨h.commands, h.pins, h.locs, h.beats⟩
  | fix r p =>
    cases hs
    refine h.start (fun _ hx => List.mem_cons_of_mem _ hx) fun c hc => ?_
    rcases List.mem_cons.mp hc with rfl | hc
    · exact List.mem_cons_self
    rcases List.mem_cons.mp hc with rfl | hc
    · exact List.mem_cons_self
    · rw [List.mem_singleton.mp hc]
      trivial
  | offline r =>
    cases hs
    refine h.start (fun _ hx => hx) fun c hc => ?_
    rcases List.mem_cons.mp hc with rfl | hc
    · trivial
    rcases List.mem_cons.mp hc with rfl | hc
    · trivial
    · rw [List.mem_singleton.mp hc]
      trivial
  | exec i =>
    simp only [step] at hs
    split at hs
    · next c rest hi =>
      cases hs
      exact h.exec hi
    · cases hs
  | lose i =>
    cases hs
    exact ⟨fun cs hcs => h.commands cs (List.mem_of_mem_eraseIdx hcs), h.pins, h.locs, h.beats⟩

theorem backed_of_run {ok : World P → Label P → Prop} {ls : List (Label P)} (h : Backed w)
    (hrun : Run step ok w ls w') : Backed w' :=
  hrun.invariant h fun _ _ _ hi _ hs => backed_step hi hs

/-- A rider whose heartbeat is there has had it written within its lifetime. -/
theorem Backed.of_alive (h : Backed w) (ha : w.alive r = true) :
    ∃ t, (r, t) ∈ w.beaten ∧ w.now < t + beatTtl := by
  unfold World.alive at ha
  cases he : w.index.beats r with
  | none =>
    rw [he] at ha
    cases ha
  | some e =>
    rw [he] at ha
    obtain ⟨t, ht, rfl⟩ := h.beats r e he
    exact ⟨t, ht, of_decide_eq_true ha⟩

/-- The latest position is one that the rider has sent. -/
theorem Backed.of_latest (h : Backed w) (hl : w.latest r = some p) : (r, p) ∈ w.fixes := by
  unfold World.latest at hl
  obtain ⟨⟨q, e⟩, hq, rfl⟩ := Option.map_eq_some_iff.mp hl
  exact h.locs r q e (Option.filter_eq_some_iff.mp hq).1

/-! ### Scores -/

variable {fl : Rounding} {a b : Candidate} {cs : List Candidate}

theorem Rounding.round_nonneg (fl : Rounding) {x : ℚ} (h : 0 ≤ x) : 0 ≤ fl.round x :=
  fl.zero.ge.trans (fl.monotone h)

variable (fl) in
theorem acceptanceRate_le_one (made accepted : ℕ) : acceptanceRate fl made accepted ≤ 1 := by
  unfold acceptanceRate
  split
  · exact le_refl 1
  · exact min_le_left _ _

variable (fl) in
theorem acceptanceRate_nonneg (made accepted : ℕ) : 0 ≤ acceptanceRate fl made accepted := by
  unfold acceptanceRate
  split
  · exact zero_le_one
  · have hquotient : (0 : ℚ) ≤ accepted / made := div_nonneg (Nat.cast_nonneg _) (Nat.cast_nonneg _)
    exact le_min zero_le_one (fl.round_nonneg hquotient)

variable (fl) in
/-- A decliner's distance is stretched, -/
theorem one_le_stretch {rate : ℚ} (h : rate ≤ 1) :
    1 ≤ fl.round (1 + fl.round (acceptanceWeight * fl.round (1 - rate))) := by
  have hmissing : 0 ≤ fl.round (1 - rate) := fl.round_nonneg (sub_nonneg.mpr h)
  have hnudge : 0 ≤ fl.round (acceptanceWeight * fl.round (1 - rate)) :=
    fl.round_nonneg (mul_nonneg (by norm_num [acceptanceWeight]) hmissing)
  exact fl.one.ge.trans (fl.monotone (le_add_of_nonneg_right hnudge))

variable (fl) in
/-- and at most by half. -/
theorem stretch_le {rate : ℚ} (h : 0 ≤ rate) :
    fl.round (1 + fl.round (acceptanceWeight * fl.round (1 - rate))) ≤ 3 / 2 := by
  have hmissing : fl.round (1 - rate) ≤ 1 := (fl.monotone (sub_le_self 1 h)).trans fl.one.le
  have hnudge : fl.round (acceptanceWeight * fl.round (1 - rate)) ≤ 1 / 2 := by
    refine (fl.monotone ?_).trans fl.half.le
    unfold acceptanceWeight
    linarith
  refine (fl.monotone ?_).trans fl.threeHalves.le
  linarith

/-- A score is at least the distance, which is a float, -/
theorem distance_le_score (h : 0 ≤ a.distance) (hfloat : fl.round a.distance = a.distance) :
    a.distance ≤ score fl a := by
  have hstretch := one_le_stretch fl (acceptanceRate_le_one fl a.offersMade a.offersAccepted)
  calc a.distance = fl.round a.distance := hfloat.symm
    _ ≤ score fl a := fl.monotone (le_mul_of_one_le_right h hstretch)

/-- and at most half as much again, rounded. -/
theorem score_le (h : 0 ≤ a.distance) : score fl a ≤ fl.round (3 / 2 * a.distance) := by
  have hstretch := stretch_le fl (acceptanceRate_nonneg fl a.offersMade a.offersAccepted)
  rw [mul_comm (3 / 2)]
  exact fl.monotone (mul_le_mul_of_nonneg_left hstretch h)

/-- **Nobody is passed over for a rider who is more than half as far again**, as floats go. -/
theorem distance_le_of_score_le (ha : 0 ≤ a.distance) (hfloat : fl.round a.distance = a.distance)
    (hb : 0 ≤ b.distance) (h : score fl a ≤ score fl b) :
    a.distance ≤ fl.round (3 / 2 * b.distance) :=
  (distance_le_score ha hfloat).trans (h.trans (score_le hb))

theorem pairwise_rank (cs : List Candidate) :
    (rank fl cs).Pairwise fun a b => a.key fl ≤ b.key fl :=
  haveI : IsTrans Candidate fun a b => a.key fl ≤ b.key fl := ⟨fun _ _ _ h h' => h.trans h'⟩
  haveI : Std.Total fun a b : Candidate => a.key fl ≤ b.key fl :=
    ⟨fun a b => le_total (a.key fl) (b.key fl)⟩
  List.pairwise_insertionSort _ cs

variable (fl) in
theorem mem_rank : a ∈ rank fl cs ↔ a ∈ cs := List.mem_insertionSort _

/-! ### The offer -/

variable {cap i n : ℕ} {tables : ℕ → Tables} {order : OrderId} {offer : OfferId}
  {mint : RiderId → OfferId} {nearby found : List (RiderId × ℚ)} {riders : List (RiderId × OfferId)}

/-- The conditional write of a reservation applies. -/
def Reservable (cap : ℕ) (t : Tables) (rider : RiderId) : Prop :=
  (t.riders rider).offerLock = none ∧ ((t.riders rider).activeDeliveries = ∅ ∨
    (t.riders rider).activeDeliveries.card < cap) ∧ (t.riders rider).status = .online

instance (cap : ℕ) (t : Tables) (rider : RiderId) : Decidable (Reservable cap t rider) :=
  inferInstanceAs (Decidable (_ ∧ (_ ∨ _) ∧ _))

theorem reserve_snd (cap : ℕ) (t : Tables) (rider : RiderId) (offer : OfferId) (order : OrderId) :
    (t.reserve cap rider offer order).2 = decide (Reservable cap t rider) := by
  by_cases hr : Reservable cap t rider
  · rcases t.onRider_cases rider fun s => s.reserve offer order cap with ⟨s, -, he⟩ | ⟨hn, -⟩
    · rw [Tables.reserve, he, decide_eq_true hr]
    · cases hn.symm.trans (if_pos hr)
  · rcases t.onRider_cases rider fun s => s.reserve offer order cap with ⟨s, hs, -⟩ | ⟨-, he⟩
    · cases hs.symm.trans (if_neg hr)
    · rw [Tables.reserve, he, decide_eq_false hr]

theorem offerFrom_of_reservable {riders : List (RiderId × OfferId)}
    (h : Reservable cap (tables i) rider) :
    offerFrom cap tables order i ((rider, offer) :: riders) = .offered offer rider := by
  have hs : ((tables i).reserve cap rider offer order).2 = true := by
    rw [reserve_snd, decide_eq_true h]
  rw [offerFrom]
  split
  · next he => cases (congrArg Prod.snd he).symm.trans hs
  · rfl

theorem offerFrom_of_refused {riders : List (RiderId × OfferId)}
    (h : ¬ Reservable cap (tables i) rider) :
    offerFrom cap tables order i ((rider, offer) :: riders) =
      offerFrom cap tables order (i + 1) riders := by
  have hs : ((tables i).reserve cap rider offer order).2 = false := by
    rw [reserve_snd, decide_eq_false h]
  rw [offerFrom]
  split
  · rfl
  · next he => cases (congrArg Prod.snd he).symm.trans hs

/-- When nobody else writes, this is the cascade of the service. -/
theorem offerFrom_eq_findAndOffer (cap : ℕ) (t : Tables) (order : OrderId) (i : ℕ)
    (riders : List (RiderId × OfferId)) :
    offerFrom cap (fun _ => t) order i riders = (findAndOffer cap t order riders).2 := by
  induction riders generalizing i with
  | nil => rfl
  | cons x riders ih =>
    obtain ⟨rider, offer⟩ := x
    rcases t.onRider_cases rider fun s => s.reserve offer order cap with ⟨s, -, he⟩ | ⟨-, he⟩
    · rw [offerFrom, findAndOffer, Tables.reserve, he]
    · rw [offerFrom, findAndOffer, Tables.reserve, he]
      exact ih (i + 1)

/-- **The first who can take the offer when it is his turn gets it**, and if nobody can, nobody
does. -/
theorem offerFrom_cases (cap : ℕ) (tables : ℕ → Tables) (order : OrderId) (i : ℕ)
    (riders : List (RiderId × OfferId)) :
    (∃ pre x post, riders = pre ++ x :: post ∧
      (∀ k y, pre[k]? = some y → ¬ Reservable cap (tables (i + k)) y.1) ∧
      Reservable cap (tables (i + pre.length)) x.1 ∧
      offerFrom cap tables order i riders = .offered x.2 x.1) ∨
    (∀ k y, riders[k]? = some y → ¬ Reservable cap (tables (i + k)) y.1) ∧
      offerFrom cap tables order i riders = .noCandidates := by
  induction riders generalizing i with
  | nil =>
    refine .inr ⟨fun k y hy => ?_, rfl⟩
    cases hy
  | cons x riders ih =>
    obtain ⟨rider, offer⟩ := x
    by_cases hr : Reservable cap (tables i) rider
    · refine .inl ⟨[], (rider, offer), riders, rfl, fun k y hy => ?_, hr, offerFrom_of_reservable hr⟩
      cases hy
    · rw [offerFrom_of_refused hr]
      -- the turns of the others are one later
      have hcons : ∀ l : List (RiderId × OfferId),
          (∀ k y, l[k]? = some y → ¬ Reservable cap (tables (i + 1 + k)) y.1) →
          ∀ k y, ((rider, offer) :: l)[k]? = some y → ¬ Reservable cap (tables (i + k)) y.1 := by
        intro l hl k y hy
        cases k with
        | zero =>
          cases hy
          exact hr
        | succ k =>
          rw [Nat.add_comm k 1, ← Nat.add_assoc]
          exact hl k y hy
      rcases ih (i + 1) with ⟨pre, x, post, rfl, hpre, hx, hout⟩ | ⟨hnone, hout⟩
      · refine .inl ⟨(rider, offer) :: pre, x, post, rfl, hcons pre hpre, ?_, hout⟩
        rw [List.length_cons, ← Nat.add_assoc, Nat.add_right_comm]
        exact hx
      · exact .inr ⟨hcons riders hnone, hout⟩

/-- In its turn, while the cascade goes through `n` candidates, the reservation is refused. -/
def Refused (cap : ℕ) (tables : ℕ → Tables) (n : ℕ) (rider : RiderId) : Prop :=
  ∃ i, n ≤ i ∧ i < n + n ∧ ¬ Reservable cap (tables i) rider

/-- The candidate could take the offer, and is the best of those who could. -/
structure Best (fl : Rounding) (cap : ℕ) (tables : ℕ → Tables) (cs : List Candidate)
    (c : Candidate) : Prop where
  mem : c ∈ cs
  reservable : ∃ i, cs.length ≤ i ∧ i < cs.length + cs.length ∧ Reservable cap (tables i) c.riderId
  best : ∀ c' ∈ cs, c.key fl ≤ c'.key fl ∨ Refused cap tables cs.length c'.riderId

theorem length_rank (cs : List Candidate) : (rank fl cs).length = cs.length :=
  List.length_insertionSort _ cs

theorem cascade_cases (cap : ℕ) (tables : ℕ → Tables) (order : OrderId) (mint : RiderId → OfferId)
    (nearby : List (RiderId × ℚ)) :
    (∃ c, Best fl cap tables (candidatesOf tables nearby) c ∧
      cascade fl cap tables order mint nearby = .offered (mint c.riderId) c.riderId) ∨
    (∀ c ∈ candidatesOf tables nearby,
        Refused cap tables (candidatesOf tables nearby).length c.riderId) ∧
      cascade fl cap tables order mint nearby = .noCandidates := by
  set cs := candidatesOf tables nearby with hcs
  have hlen : (rank fl cs).length = cs.length := length_rank cs
  rcases offerFrom_cases cap tables order cs.length
    ((rank fl cs).map fun c => (c.riderId, mint c.riderId)) with
    ⟨pre, x, post, heq, hpre, hx, hout⟩ | ⟨hnone, hout⟩
  · obtain ⟨cpre, ctail, hsplit, rfl, htail⟩ := List.map_eq_append_iff.mp heq
    obtain ⟨c, cpost, rfl, rfl, rfl⟩ := List.map_eq_cons_iff.mp htail
    have hsorted : (rank fl cs).Pairwise fun a b => a.key fl ≤ b.key fl := pairwise_rank cs
    rw [hsplit] at hsorted hlen
    rw [List.length_append, List.length_cons] at hlen
    rw [List.length_map] at hx
    refine .inl ⟨c, ⟨(mem_rank fl).mp ?_, ⟨_, Nat.le_add_right _ _, by omega, hx⟩, fun c' hc' => ?_⟩, hout⟩
    · rw [hsplit]
      exact List.mem_append_right _ List.mem_cons_self
    · have hmem := (mem_rank fl).mpr hc'
      rw [hsplit] at hmem
      rcases List.mem_append.mp hmem with hmem | hmem
      · -- whoever was before has been asked before
        obtain ⟨k, hk⟩ := List.mem_iff_getElem?.mp hmem
        have hlt : k < cpre.length := (List.getElem?_eq_some_iff.mp hk).1
        refine .inr ⟨cs.length + k, Nat.le_add_right _ _, by omega, ?_⟩
        refine hpre k (c'.riderId, mint c'.riderId) ?_
        rw [List.getElem?_map, hk]
        rfl
      rcases List.mem_cons.mp hmem with rfl | hmem
      · exact .inl (le_refl _)
      · exact .inl ((List.pairwise_cons.mp (List.pairwise_append.mp hsorted).2.1).1 c' hmem)
  · refine .inr ⟨fun c hc => ?_, hout⟩
    obtain ⟨k, hk⟩ := List.mem_iff_getElem?.mp ((mem_rank fl).mpr hc)
    have hlt : k < (rank fl cs).length := (List.getElem?_eq_some_iff.mp hk).1
    refine ⟨cs.length + k, Nat.le_add_right _ _, by omega, ?_⟩
    refine hnone k (c.riderId, mint c.riderId) ?_
    rw [List.getElem?_map, hk]
    rfl

/-- A candidate has been found. -/
theorem mem_candidatesOf (h : a ∈ candidatesOf tables nearby) :
    (a.riderId, a.distance) ∈ nearby.take 8 := by
  obtain ⟨i, hi, rfl⟩ := List.mem_mapIdx.mp h
  exact List.getElem_mem hi

/-- What the search leaves: alive, within the radius, and not excluded. -/
theorem mem_search {exclude : List RiderId} {alive : RiderId → Bool} {d : ℚ}
    (h : (rider, d) ∈ search fl found exclude alive) :
    ∃ km, (rider, km) ∈ found ∧ d = fl.round (km * 1000) ∧ rider ∉ exclude ∧ alive rider = true := by
  obtain ⟨hmem, ha⟩ := List.mem_filter.mp h
  obtain ⟨⟨r, km⟩, hf, heq⟩ := List.mem_map.mp hmem
  cases heq
  obtain ⟨hfound, hex⟩ := List.mem_filter.mp hf
  exact ⟨km, hfound, rfl, of_decide_eq_true hex, ha⟩

theorem pairwise_search {exclude : List RiderId} {alive : RiderId → Bool}
    (h : found.Pairwise fun a b => a.2 ≤ b.2) :
    (search fl found exclude alive).Pairwise fun a b => a.2 ≤ b.2 := by
  refine List.Pairwise.filter _ (List.pairwise_map.mpr ((h.filter _).imp fun hle => ?_))
  exact fl.monotone (mul_le_mul_of_nonneg_right hle (by norm_num))

/-- The pipeline of EXISTS: each is answered at some moment between two worlds. -/
def Answered (w w' : World P) (alive : RiderId → Bool) : Prop :=
  ∀ r, alive r = true → ∃ ls v ls', Run step Always w ls v ∧ Run step Always v ls' w' ∧
    v.alive r = true

/-- What an offer tells of the rider who gets it. -/
structure Chosen (fl : Rounding) (m : Metric P) (w w' : World P) (center : P) (radius : ℚ)
    (exclude : List RiderId) (cap : ℕ) (tables : ℕ → Tables) (nearby : List (RiderId × ℚ))
    (rider : RiderId) : Prop where
  /-- The rider had sent a position within the radius before the search. -/
  near : ∃ p, (rider, p) ∈ w.fixes ∧ m.distance p center ≤ radius
  /-- The rider has been heard of within the lifetime of a heartbeat. -/
  alive : ∃ time, (rider, time) ∈ w'.beaten ∧ w.now < time + beatTtl
  fresh : rider ∉ exclude
  /-- He could take it; whoever is ranked before him of the first eight could not, when asked. -/
  best : ∃ c, Best fl cap tables (candidatesOf tables nearby) c ∧ c.riderId = rider ∧
    ∀ c' ∈ candidatesOf tables nearby, c.distance ≤ fl.round (3 / 2 * c'.distance) ∨
      Refused cap tables (candidatesOf tables nearby).length c'.riderId
  /-- Whoever is not of the eight is not nearer than any of them. -/
  eight : ∀ c ∈ candidatesOf tables nearby, ∀ x ∈ nearby.drop 8, c.distance ≤ x.2

/-- Time does not run back, and what has been written is remembered. -/
structure Later (w w' : World P) : Prop where
  now : w.now ≤ w'.now
  beaten : w.beaten ⊆ w'.beaten

theorem later_step {l : Label P} (hs : step w l = some w') : Later w w' := by
  cases l with
  | tick d =>
    cases hs
    exact ⟨Nat.le_add_right _ _, fun _ h => h⟩
  | exec i =>
    simp only [step] at hs
    split at hs
    · cases hs
      exact ⟨le_refl _, fun _ h => List.mem_append_right _ h⟩
    · cases hs
  | fix r p => cases hs; exact ⟨le_refl _, fun _ h => h⟩
  | offline r => cases hs; exact ⟨le_refl _, fun _ h => h⟩
  | lose i => cases hs; exact ⟨le_refl _, fun _ h => h⟩

theorem later_of_run {ls : List (Label P)} (hrun : Run step Always w ls w') : Later w w' := by
  refine hrun.invariant (I := fun v => Later w v) ⟨le_refl _, fun _ h => h⟩ fun v l u hi _ hs => ?_
  have hstep := later_step hs
  exact ⟨hi.now.trans hstep.now, fun _ h => hstep.beaten (hi.beaten h)⟩

/-- **An offer goes to the best rider who could take it when asked, whatever others write meanwhile,
and whom positions and heartbeats of his own show to be near and alive.** -/
theorem offered_of_run (fl : Rounding) {m : Metric P} {ls : List (Label P)} {center : P} {radius : ℚ}
    {exclude : List RiderId} {alive : RiderId → Bool} (hrun : Run step Always .start ls w)
    (ha : Answered w w' alive) (hf : Found m w.index center radius found) :
    let nearby := search fl found exclude alive
    (∃ rider, cascade fl cap tables order mint nearby = .offered (mint rider) rider ∧
      Chosen fl m w w' center radius exclude cap tables nearby rider) ∨
    cascade fl cap tables order mint nearby = .noCandidates ∧
      ∀ c ∈ candidatesOf tables nearby,
        Refused cap tables (candidatesOf tables nearby).length c.riderId := by
  intro nearby
  have hback : Backed w := backed_of_run backed_start hrun
  have hdistance : ∀ c ∈ candidatesOf tables nearby,
      0 ≤ c.distance ∧ fl.round c.distance = c.distance := by
    intro c hc
    obtain ⟨km, hkm, heq, -, -⟩ := mem_search (List.mem_of_mem_take (mem_candidatesOf hc))
    obtain ⟨p, -, rfl, -⟩ := (hf.mem_iff c.riderId km).mp hkm
    rw [heq]
    exact ⟨fl.round_nonneg (mul_nonneg (m.nonneg p center) (by norm_num)), fl.round_round _⟩
  rcases cascade_cases cap tables order mint nearby with ⟨c, hbest, hout⟩ | ⟨hnone, hout⟩
  · refine .inl ⟨c.riderId, hout, ?_⟩
    obtain ⟨km, hkm, -, hex, halive⟩ :=
      mem_search (List.mem_of_mem_take (mem_candidatesOf hbest.mem))
    obtain ⟨p, hpin, rfl, hle⟩ := (hf.mem_iff c.riderId km).mp hkm
    obtain ⟨ls₁, v, ls₂, hv, hv', hbeat⟩ := ha c.riderId halive
    obtain ⟨time, ht, hlt⟩ := (backed_of_run hback hv).of_alive hbeat
    refine ⟨⟨p, hback.pins _ p hpin, hle⟩,
      ⟨time, (later_of_run hv').beaten ht, (later_of_run hv).now.trans_lt hlt⟩, hex,
      ⟨c, hbest, rfl, fun c' hc' => ?_⟩, fun c' hc' x hx' => ?_⟩
    · rcases hbest.best c' hc' with hkey | href
      · obtain ⟨hnonneg, hfloat⟩ := hdistance c hbest.mem
        refine .inl (distance_le_of_score_le hnonneg hfloat (hdistance c' hc').1 ?_)
        exact Prod.Lex.monotone_fst _ _ hkey
      · exact .inr href
    · have hsorted : nearby.Pairwise fun a b => a.2 ≤ b.2 := pairwise_search hf.nearest
      rw [← List.take_append_drop 8 nearby] at hsorted
      exact (List.pairwise_append.mp hsorted).2.2 _ (mem_candidatesOf hc') x hx'
  · exact .inr ⟨hout, hnone⟩

/-- Floats that are not rounded: enough where every result is one. -/
def Rounding.exact : Rounding :=
  ⟨id, monotone_id, fun _ => rfl, rfl, rfl, rfl, rfl⟩

/-- Points on a street, in eighths of a kilometre. -/
def street : Metric ℤ where
  distance p q := |(p - q : ℚ)| / 8
  report := id
  nonneg p q := div_nonneg (abs_nonneg _) (by norm_num)

/-- The nearest rider has let four offers pass, so the next one is asked. -/
theorem offered_of_run_decliner :
    let pins := Function.update (Function.update (fun _ => none) "a" (some 8)) "b" (some 10)
    let found := [("a", 1), ("b", 5 / 4)]
    let tables := fun _ : ℕ =>
      (⟨fun r => ⟨.online, none, ∅, if r = "a" then 4 else 0, 0⟩, fun _ => none⟩ : Tables)
    ∃ w : World ℤ, w.index.pins = pins ∧
      cascade .exact 2 tables "o" id (search .exact found [] w.alive) = .offered "b" "b" ∧
      Chosen .exact street w w 0 5 [] 2 tables (search .exact found [] w.alive) "b" := by
  intro pins found tables
  obtain ⟨w, hw⟩ : ∃ w : World ℤ, exec step .start
      [.fix "a" 8, .exec 0, .exec 0, .exec 0, .fix "b" 10, .exec 0, .exec 0, .exec 0] = some w :=
    ⟨_, rfl⟩
  have hpins : w.index.pins = pins := by
    cases hw
    rfl
  have hoff : cascade .exact 2 tables "o" id (search .exact found [] w.alive) =
      .offered "b" "b" := by
    cases hw
    decide +kernel
  have hf : Found street w.index 0 5 found := by
    refine ⟨fun r d => ?_, ?_⟩
    · rw [hpins]
      refine ⟨fun hmem => ?_, ?_⟩
      · rcases List.mem_cons.mp hmem with hx | hmem
        · cases hx
          exact ⟨8, rfl, by norm_num [street], by norm_num [street]⟩
        · cases List.mem_singleton.mp hmem
          exact ⟨10, rfl, by norm_num [street], by norm_num [street]⟩
      · rintro ⟨p, hp, rfl, -⟩
        rcases update_cases hp with ⟨rfl, hv⟩ | hp
        · cases hv
          norm_num [street, found]
        rcases update_cases hp with ⟨rfl, hv⟩ | hp
        · cases hv
          norm_num [street, found]
        · cases hp
    · norm_num [found]
  rcases offered_of_run .exact (run_iff_exec.mpr hw)
    (fun r hr => ⟨[], w, [], .nil, .nil, hr⟩) hf with ⟨rider, ho, hc⟩ | ⟨hn, -⟩
  · cases hoff.symm.trans ho
    exact ⟨w, hpins, hoff, hc⟩
  · cases hoff.symm.trans hn

end Dispatch.Candidates
