/-
Reciprocal-rank fusion, of any number of legs.

* `fuse` — scores, first appearances, and the cut, with the damping constant as a parameter;
* `share`, `score_eq` — what one leg adds to a candidate's score;
* `respects_agreement` — the ranking is one of the union; it keeps what every leg agrees on, and
  who moves up in a leg does not move down in it;
* `map_fuse_rrfK` — with the constant of the service, it is the ranking of `retrieve`.
-/
import SmartFoodOps.Lib.Ranking
import SmartFoodOps.Assistant.Retrieval
import Mathlib.Data.Prod.Lex
import Mathlib.Algebra.Order.BigOperators.Group.List
import Mathlib.Algebra.Field.Rat
import Mathlib.Algebra.Order.Field.Basic

namespace Assistant.Fusion

open Ranking

/-- The chunks of a leg. -/
def ids (leg : List Candidate) : List String := leg.map Candidate.chunkId

/-- `scores`. -/
def scores (k : ℕ) (legs : List (List Candidate)) : Dict String ℚ :=
  Dict.gather (fun c => c.1.chunkId) (fun c score => score.getD 0 + 1 / (k + (c.2 + 1) : ℚ))
    (legs.flatMap List.zipIdx)

/-- `seen`: the first candidate of each chunk. -/
def seen (legs : List (List Candidate)) : Dict String Candidate :=
  Dict.gather Candidate.chunkId (fun c first => first.getD c) legs.flatten

def order (legs : List (List Candidate)) : List String := (seen legs).entries.map Prod.fst

def score (k : ℕ) (legs : List (List Candidate)) (id : String) : ℚ :=
  ((scores k legs).get id).getD 0

/-- What `sorted` compares. -/
def key (k : ℕ) (legs : List (List Candidate)) (id : String) : ℚ ×ₗ ℕ :=
  toLex (-score k legs id, (order legs).idxOf id)

def ranked (k : ℕ) (legs : List (List Candidate)) : List String :=
  (order legs).insertionSort fun a b => key k legs a ≤ key k legs b

/-- `l[:limit]`, from the end if the limit is negative. -/
def upTo {β : Type*} (limit : Option ℤ) (l : List β) : List β :=
  match limit with
  | none => l
  | some n => l.take (if 0 ≤ n then n else l.length + n).toNat

/-- `fuse`: candidates, each with its score. -/
def fuse (k : ℕ) (legs : List (List Candidate)) (limit : Option ℤ) : List (Candidate × ℚ) :=
  upTo limit ((ranked k legs).filterMap fun id =>
    ((seen legs).get id).map fun c => (c, score k legs id))

/-- The chunks, as they are ranked. -/
def fusedIds (k : ℕ) (legs : List (List Candidate)) (limit : Option ℤ) : List String :=
  (fuse k legs limit).map fun c => c.1.chunkId

variable {k n : ℕ} {legs pre post : List (List Candidate)} {leg leg' : List Candidate}
  {limit : Option ℤ} {a b c : String} {x : Candidate}

/-! ### Scores -/

/-- What a leg adds to the score of a chunk. -/
def share (k : ℕ) (leg : List Candidate) (id : String) : ℚ :=
  if id ∈ ids leg then 1 / (k + ((ids leg).idxOf id + 1 : ℕ)) else 0

theorem foldl_score (xs : List (Candidate × ℕ)) (o : Option ℚ) :
    (xs.foldl (fun o x => some (o.getD 0 + 1 / (k + (x.2 + 1) : ℚ))) o).getD 0 =
      o.getD 0 + (xs.map fun x => (1 / (k + (x.2 + 1)) : ℚ)).sum := by
  induction xs generalizing o with
  | nil => exact (add_zero _).symm
  | cons x xs ih => rw [List.foldl_cons, ih, List.map_cons, List.sum_cons, Option.getD_some, add_assoc]

/-- A leg that has a chunk once adds its reciprocal rank. -/
theorem sum_leg (hd : (ids leg).Nodup) : (((leg.zipIdx n).filter fun x => x.1.chunkId = a).map
      fun x => (1 / (k + (x.2 + 1)) : ℚ)).sum =
    if a ∈ ids leg then (1 / (k + (n + (ids leg).idxOf a + 1 : ℕ)) : ℚ) else 0 := by
  induction leg generalizing n with
  | nil => rfl
  | cons x leg ih =>
    obtain ⟨hx, hd⟩ : x.chunkId ∉ ids leg ∧ (ids leg).Nodup := List.nodup_cons.mp hd
    have htail := ih (n := n + 1) hd
    show ((((x, n) :: leg.zipIdx (n + 1)).filter _).map _).sum =
      if a ∈ x.chunkId :: ids leg then (1 / (k + (n + (x.chunkId :: ids leg).idxOf a + 1 : ℕ)) : ℚ)
      else 0
    by_cases hxa : x.chunkId = a
    · subst hxa
      rw [if_neg hx] at htail
      rw [List.filter_cons_of_pos (by simp), List.map_cons, List.sum_cons, htail,
        add_zero, if_pos List.mem_cons_self, List.idxOf_cons_self, Nat.add_zero, Nat.cast_succ]
    · rw [List.filter_cons_of_neg (by simpa using hxa), htail, List.idxOf_cons_ne _ hxa]
      have hmem : a ∈ x.chunkId :: ids leg ↔ a ∈ ids leg := by
        rw [List.mem_cons]
        exact or_iff_right (Ne.symm hxa)
      simp only [hmem]
      rw [show n + 1 + (ids leg).idxOf a + 1 = n + ((ids leg).idxOf a).succ + 1 by omega]

/-- **A score** is what the legs add. -/
theorem score_eq (hd : ∀ leg ∈ legs, (ids leg).Nodup) :
    score k legs a = (legs.map fun leg => share k leg a).sum := by
  unfold score scores
  rw [Dict.get_gather, foldl_score, List.filter_flatMap, List.map_flatMap, List.flatMap_def,
    List.sum_flatten, List.map_map, Option.getD_none, zero_add]
  refine congrArg _ (List.map_congr_left fun leg hleg => ?_)
  refine (sum_leg (n := 0) (hd leg hleg)).trans ?_
  rw [Nat.zero_add]
  rfl

theorem rank_pos {i : ℕ} : (0 : ℚ) < k + (i + 1 : ℕ) :=
  add_pos_of_nonneg_of_pos (Nat.cast_nonneg k) (Nat.cast_pos.mpr i.succ_pos)

theorem share_nonneg : 0 ≤ share k leg a := by
  unfold share
  split
  · exact (one_div_pos.mpr rank_pos).le
  · exact le_refl 0

/-- A better rank adds no less. -/
theorem share_le (ha : a ∈ ids leg') (h : (ids leg').idxOf a ≤ (ids leg).idxOf b) :
    share k leg b ≤ share k leg' a := by
  by_cases hb : b ∈ ids leg
  · rw [share, share, if_pos ha, if_pos hb]
    have hcast : (((ids leg').idxOf a + 1 : ℕ) : ℚ) ≤ ((ids leg).idxOf b + 1 : ℕ) :=
      Nat.cast_le.mpr (Nat.succ_le_succ h)
    exact one_div_le_one_div_of_le rank_pos (add_le_add (le_refl _) hcast)
  · rw [share, if_neg hb]
    exact share_nonneg

theorem share_lt (h : Before (ids leg) a b) : share k leg b < share k leg a := by
  rw [share, share, if_pos h.mem, if_pos h.1]
  have hcast : (((ids leg).idxOf a + 1 : ℕ) : ℚ) < ((ids leg).idxOf b + 1 : ℕ) :=
    Nat.cast_lt.mpr (Nat.succ_lt_succ h.2)
  exact one_div_lt_one_div_of_lt rank_pos (add_lt_add_of_le_of_lt (le_refl _) hcast)

/-! ### First appearances -/

theorem mem_order : a ∈ order legs ↔ ∃ leg ∈ legs, a ∈ ids leg := by
  refine Dict.mem_keys_gather.trans ⟨?_, ?_⟩
  · rintro ⟨x, hx, rfl⟩
    obtain ⟨leg, hleg, hx⟩ := List.mem_flatten.mp hx
    exact ⟨leg, hleg, List.mem_map_of_mem hx⟩
  · rintro ⟨leg, hleg, ha⟩
    obtain ⟨x, hx, rfl⟩ := List.mem_map.mp ha
    exact ⟨x, List.mem_flatten.mpr ⟨leg, hleg, hx⟩, rfl⟩

theorem nodup_order : (order legs).Nodup := (seen legs).distinct

/-- The chunks that a leg is the first to have, and then those of the later legs. -/
theorem order_append (hd : (ids leg).Nodup) : order (pre ++ leg :: post) = order pre ++
    (ids leg).filter (fun a => a ∉ order pre) ++
      ((order post).filter fun a => a ∉ ids leg).filter fun a => a ∉ order pre := by
  have hleg : ((Dict.gather Candidate.chunkId (fun c first => first.getD c) leg).entries.map
      Prod.fst) = ids leg := Dict.keys_gather_of_nodup hd
  unfold order seen
  rw [List.flatten_append, List.flatten_cons, Dict.keys_gather_append_eq, Dict.keys_gather_append_eq,
    hleg, List.filter_append, List.append_assoc]

/-- Who moves up in a leg still comes before whom it came before. -/
theorem before_order_of_raised (hd : (ids leg).Nodup) (h : Raised x leg leg')
    (hb : Before (order (pre ++ leg :: post)) x.chunkId c) :
    Before (order (pre ++ leg' :: post)) x.chunkId c := by
  have hids : Raised x.chunkId (ids leg) (ids leg') := h.map _
  have hrest : (order post).filter (fun a => a ∉ ids leg) =
      (order post).filter fun a => a ∉ ids leg' :=
    List.filter_congr fun a _ => decide_eq_decide.mpr (not_congr hids.perm.mem_iff)
  have hn : (order (pre ++ leg :: post)).Nodup := nodup_order
  rw [order_append hd] at hb hn
  rw [order_append (hids.perm.nodup_iff.mp hd), ← hrest]
  rcases hids.filter fun a => a ∉ order pre with heq | hup
  · rw [← heq]
    exact hb
  · exact (hup.append _ _).before hn hb

/-! ### The ranking -/

theorem perm_ranked : (ranked k legs).Perm (order legs) := List.perm_insertionSort _ _

theorem nodup_ranked : (ranked k legs).Nodup := perm_ranked.nodup_iff.mpr nodup_order

theorem before_ranked_iff : Before (ranked k legs) a b ↔ a ∈ order legs ∧ b ∈ order legs ∧
    (score k legs b < score k legs a ∨
      score k legs a = score k legs b ∧ Before (order legs) a b) := by
  have hinj : ∀ a ∈ order legs, ∀ b ∈ order legs, key k legs a = key k legs b → a = b :=
    fun a ha b _ h => (List.idxOf_inj ha).mp (congrArg (fun x => (ofLex x).2) h)
  refine (before_insertionSort_iff hinj).trans (and_congr_right fun ha => and_congr_right fun hb => ?_)
  unfold key Before
  rw [Prod.Lex.toLex_lt_toLex, neg_lt_neg_iff, neg_inj]
  exact or_congr_right (and_congr_right fun _ => (and_iff_right hb).symm)

/-- Who stands before another in every leg that has the other has the higher score. -/
theorem score_lt_of_before (hd : ∀ leg ∈ legs, (ids leg).Nodup)
    (h : ∀ leg ∈ legs, b ∈ ids leg → Before (ids leg) a b) (hb : b ∈ order legs) :
    score k legs b < score k legs a := by
  rw [score_eq hd, score_eq hd]
  obtain ⟨leg, hleg, hmem⟩ := mem_order.mp hb
  refine List.sum_lt_sum _ _ (fun leg hleg => ?_) ⟨leg, hleg, share_lt (h leg hleg hmem)⟩
  by_cases hb : b ∈ ids leg
  · exact (share_lt (h leg hleg hb)).le
  · rw [share, if_neg hb]
    exact share_nonneg

theorem before_of_agreement (hd : ∀ leg ∈ legs, (ids leg).Nodup)
    (h : ∀ leg ∈ legs, b ∈ ids leg → Before (ids leg) a b) (hb : b ∈ order legs) :
    Before (ranked k legs) a b := by
  obtain ⟨leg, hleg, hmem⟩ := mem_order.mp hb
  exact before_ranked_iff.mpr ⟨mem_order.mpr ⟨leg, hleg, (h leg hleg hmem).mem⟩, hb,
    .inl (score_lt_of_before hd h hb)⟩

/-- Moving up in a leg adds to the score, and takes from the others. -/
theorem score_of_raised (hd : ∀ l ∈ pre ++ leg :: post, (ids l).Nodup) (h : Raised x leg leg') :
    score k (pre ++ leg :: post) x.chunkId ≤ score k (pre ++ leg' :: post) x.chunkId ∧
      ∀ c ≠ x.chunkId, score k (pre ++ leg' :: post) c ≤ score k (pre ++ leg :: post) c := by
  have hids : Raised x.chunkId (ids leg) (ids leg') := h.map _
  have hleg : (ids leg).Nodup := hd leg (List.mem_append_right _ List.mem_cons_self)
  have hd' : ∀ l ∈ pre ++ leg' :: post, (ids l).Nodup := by
    intro l hl
    rcases List.mem_append.mp hl with hl | hl
    · exact hd l (List.mem_append_left _ hl)
    · rcases List.mem_cons.mp hl with rfl | hl
      · exact hids.perm.nodup_iff.mp hleg
      · exact hd l (List.mem_append_right _ (List.mem_cons_of_mem _ hl))
  have hsum : ∀ {leg leg' : List Candidate} {a : String}, share k leg a ≤ share k leg' a →
      ((pre ++ leg :: post).map fun l => share k l a).sum ≤
        ((pre ++ leg' :: post).map fun l => share k l a).sum := by
    intro leg leg' a hle
    rw [List.map_append, List.map_append, List.sum_append, List.sum_append, List.map_cons,
      List.map_cons, List.sum_cons, List.sum_cons]
    exact add_le_add (le_refl _) (add_le_add hle (le_refl _))
  have hmem : x.chunkId ∈ ids leg' := by
    obtain ⟨p, m, s, -, rfl⟩ := h
    exact List.mem_map_of_mem (List.mem_append_right _ List.mem_cons_self)
  rw [score_eq hd, score_eq hd']
  refine ⟨hsum (share_le hmem (hids.idxOf_self hleg)), fun c hc => ?_⟩
  rw [score_eq hd, score_eq hd']
  refine hsum ?_
  by_cases hin : c ∈ ids leg
  · exact share_le hin (hids.idxOf_le (Ne.symm hc))
  · rw [share, if_neg (fun hin' => hin (hids.perm.mem_iff.mpr hin'))]
    exact share_nonneg

/-! ### The cut -/

/-- How many of `n` stay. -/
def cut (limit : Option ℤ) (n : ℕ) : ℕ := limit.elim n fun m => (if 0 ≤ m then m else n + m).toNat

theorem upTo_eq_take {β : Type*} (l : List β) : upTo limit l = l.take (cut limit l.length) := by
  cases limit with
  | none => exact List.take_length.symm
  | some m => rfl

theorem map_upTo {β γ : Type*} (f : β → γ) (l : List β) :
    (upTo limit l).map f = upTo limit (l.map f) := by
  rw [upTo_eq_take, upTo_eq_take, List.map_take, List.length_map]

theorem mem_of_mem_upTo {β : Type*} {l : List β} {b : β} (h : b ∈ upTo limit l) : b ∈ l := by
  rw [upTo_eq_take] at h
  exact List.mem_of_mem_take h

theorem seen_of_mem (h : a ∈ order legs) :
    ∃ c, (seen legs).get a = some c ∧ c.chunkId = a ∧ ∃ leg ∈ legs, c ∈ leg := by
  obtain ⟨x, hx, rfl⟩ := Dict.mem_keys_gather.mp h
  obtain ⟨c, hget⟩ := @Dict.get_gather_of_mem _ _ _ _ Candidate.chunkId
    (fun c first => first.getD c) legs.flatten x hx
  have hfirst : c.chunkId = x.chunkId ∧ c ∈ legs.flatten := by
    refine Dict.of_get_gather (P := fun k c => c.chunkId = k ∧ c ∈ legs.flatten) ?_ hget
    intro y hy o ho
    cases o with
    | none => exact ⟨rfl, hy⟩
    | some first => exact ho first rfl
  exact ⟨c, hget, hfirst.1, List.mem_flatten.mp hfirst.2⟩

theorem fusedIds_eq : fusedIds k legs limit = upTo limit (ranked k legs) := by
  unfold fusedIds fuse
  rw [map_upTo, List.map_filterMap]
  refine congrArg _ ((List.filterMap_congr fun a ha => ?_).trans List.filterMap_some)
  obtain ⟨c, hget, rfl, -⟩ := seen_of_mem (perm_ranked.mem_iff.mp ha)
  rw [hget]
  rfl

theorem mem_of_mem_fuse {e : Candidate × ℚ} (h : e ∈ fuse k legs limit) :
    ∃ leg ∈ legs, e.1 ∈ leg := by
  obtain ⟨a, ha, he⟩ := List.mem_filterMap.mp (mem_of_mem_upTo h)
  obtain ⟨c, hget, -, hleg⟩ := seen_of_mem (perm_ranked.mem_iff.mp ha)
  rw [hget] at he
  obtain rfl := Option.some.inj he
  exact hleg

/-- The legs have the same chunks. -/
theorem mem_order_raised (h : Raised x leg leg') :
    a ∈ order (pre ++ leg' :: post) ↔ a ∈ order (pre ++ leg :: post) := by
  rw [mem_order, mem_order]
  simp only [List.mem_append, List.mem_cons, or_and_right, exists_or, exists_eq_left,
    (h.map Candidate.chunkId).perm.mem_iff, ids]

/-- Who moves up in a leg has no more before it. -/
theorem raised_ranked (hd : ∀ l ∈ pre ++ leg :: post, (ids l).Nodup) (h : Raised x leg leg')
    (hx : x.chunkId ∈ ranked k (pre ++ leg' :: post)) :
    (ranked k (pre ++ leg' :: post)).idxOf x.chunkId ≤
      (ranked k (pre ++ leg :: post)).idxOf x.chunkId := by
  refine idxOf_le_of_before nodup_ranked hx fun c hc => ?_
  have hmem : ∀ a, a ∈ order (pre ++ leg' :: post) ↔ a ∈ order (pre ++ leg :: post) :=
    fun a => mem_order_raised h
  obtain ⟨hcm, hxm, hlt⟩ := before_ranked_iff.mp hc
  obtain ⟨hup, hdown⟩ := score_of_raised (k := k) hd h
  have hne : c ≠ x.chunkId := by
    rintro rfl
    exact Nat.lt_irrefl _ hc.2
  refine before_ranked_iff.mpr ⟨(hmem c).mp hcm, (hmem _).mp hxm, ?_⟩
  rcases hlt with hlt | ⟨heq, hfirst⟩
  · exact .inl ((hup.trans_lt hlt).trans_le (hdown c hne))
  · -- of one score, the first appearance tells
    rcases (hup.trans (heq ▸ hdown c hne)).lt_or_eq with hlt | heq'
    · exact .inl hlt
    · refine .inr ⟨heq'.symm, (before_or_before ((hmem c).mp hcm) ((hmem _).mp hxm) hne).resolve_right
        fun hb => ?_⟩
      exact hfirst.asymm (before_order_of_raised (hd leg (List.mem_append_right _
        List.mem_cons_self)) h hb)

/-- **Fusion respects agreement**: the chunks are the first of a ranking of the union of the legs;
who stands before another wherever that one stands is ranked before it; and who moves up in one leg,
all else in the same order, does not move down. -/
theorem respects_agreement (hd : ∀ leg ∈ legs, (ids leg).Nodup) :
    (∃ whole : List String, whole.Nodup ∧ (∀ a, a ∈ whole ↔ ∃ leg ∈ legs, a ∈ ids leg) ∧
      fusedIds k legs limit = upTo limit whole ∧
      ∀ e ∈ fuse k legs limit, ∃ leg ∈ legs, e.1 ∈ leg) ∧
    (∀ a b, (∀ leg ∈ legs, b ∈ ids leg → Before (ids leg) a b) → b ∈ fusedIds k legs limit →
      Before (fusedIds k legs limit) a b) ∧
    ∀ pre leg leg' post x, legs = pre ++ leg :: post → Raised x leg leg' →
      x.chunkId ∈ fusedIds k legs limit →
      x.chunkId ∈ fusedIds k (pre ++ leg' :: post) limit ∧
        (fusedIds k (pre ++ leg' :: post) limit).idxOf x.chunkId ≤
          (fusedIds k legs limit).idxOf x.chunkId := by
  refine ⟨⟨ranked k legs, nodup_ranked, fun a => perm_ranked.mem_iff.trans mem_order, fusedIds_eq,
    fun e he => mem_of_mem_fuse he⟩, ?_, ?_⟩
  · intro a b h hb
    rw [fusedIds_eq, upTo_eq_take] at hb ⊢
    refine before_take (before_of_agreement hd h ?_) hb
    exact perm_ranked.mem_iff.mp (List.mem_of_mem_take hb)
  · rintro pre leg leg' post x rfl h hx
    have hperm : (ranked k (pre ++ leg' :: post)).Perm (ranked k (pre ++ leg :: post)) := by
      refine (List.perm_ext_iff_of_nodup nodup_ranked nodup_ranked).mpr fun a => ?_
      rw [perm_ranked.mem_iff, perm_ranked.mem_iff, mem_order_raised h]
    rw [fusedIds_eq, upTo_eq_take] at hx ⊢
    rw [fusedIds_eq, upTo_eq_take, hperm.length_eq]
    have hx' := hperm.mem_iff.mpr (List.mem_of_mem_take hx)
    exact mem_take_of_idxOf_le hx hx' (raised_ranked hd h hx')

def twoLegs : List (List Candidate) :=
  [[⟨"r1:a", "r1", "a"⟩, ⟨"r1:b", "r1", "b"⟩], [⟨"r2:c", "r2", "c"⟩, ⟨"r1:a", "r1", "a"⟩]]

/-- The second stands behind the first in the one leg that has it; put before it there, it gains. -/
theorem respects_agreement_twoLegs :
    Before (fusedIds 60 twoLegs none) "r1:a" "r1:b" ∧
      (fusedIds 60 [[⟨"r1:b", "r1", "b"⟩, ⟨"r1:a", "r1", "a"⟩],
        [⟨"r2:c", "r2", "c"⟩, ⟨"r1:a", "r1", "a"⟩]] none).idxOf "r1:b" ≤
          (fusedIds 60 twoLegs none).idxOf "r1:b" := by
  obtain ⟨⟨whole, -, hmem, heq, -⟩, hbefore, hraised⟩ :=
    @respects_agreement 60 twoLegs none (by decide)
  have hb : "r1:b" ∈ fusedIds 60 twoLegs none := by
    rw [heq]
    exact (hmem _).mpr (by decide)
  exact ⟨hbefore _ _ (by decide) hb,
    (hraised [] _ _ _ ⟨"r1:b", "r1", "b"⟩ rfl ⟨[], [⟨"r1:a", "r1", "a"⟩], [], rfl, rfl⟩ hb).2⟩

/-! ### The constant of the service -/

theorem entry_of_seen {e : String × Candidate} (he : e ∈ (seen legs).entries) :
    (seen legs).get e.1 = some e.2 ∧ e.2.chunkId = e.1 := by
  obtain ⟨c, hget, hc, -⟩ := seen_of_mem (List.mem_map_of_mem he)
  have hval := Dict.mem_entries.mp he
  rw [hval] at hget
  obtain rfl := Option.some.inj hget
  exact ⟨hval, hc⟩

/-- A stable sort by the score does what the tie-break does. -/
theorem ranked_eq : ranked k legs =
    (order legs).insertionSort fun a b => score k legs b ≤ score k legs a := by
  refine insertionSort_congr ?_
  have hsorted : (order legs).Pairwise fun a b => (order legs).idxOf a < (order legs).idxOf b := by
    refine List.pairwise_iff_getElem.mpr fun i j hi hj hij => ?_
    rw [nodup_order.idxOf_getElem, nodup_order.idxOf_getElem]
    exact hij
  refine hsorted.imp fun hlt => ?_
  unfold key
  rw [Prod.Lex.toLex_le_toLex, neg_lt_neg_iff, neg_inj, and_iff_left hlt.le, eq_comm, ← le_iff_lt_or_eq]

/-- **With the constant of the service**, this is the ranking of `retrieve`. -/
theorem map_fuse_rrfK {m : ℕ} : (fuse rrfK legs (some m)).map Prod.fst = Assistant.fuse legs m := by
  have hsort : ((seen legs).entries.insertionSort fun e e' =>
      score rrfK legs e'.1 ≤ score rrfK legs e.1).map Prod.fst = ranked rrfK legs := by
    rw [ranked_eq]
    exact List.map_insertionSort _ _ _ _ fun _ _ _ _ => Iff.rfl
  have hcand : ((seen legs).entries.insertionSort fun e e' =>
      score rrfK legs e'.1 ≤ score rrfK legs e.1).map Prod.snd =
        (seen legs).values.insertionSort fun c c' =>
          score rrfK legs c'.chunkId ≤ score rrfK legs c.chunkId := by
    refine List.map_insertionSort _ _ _ _ fun e he e' he' => ?_
    rw [(entry_of_seen he).2, (entry_of_seen he').2]
  have hget : ((ranked rrfK legs).filterMap fun id =>
      ((seen legs).get id).map fun c => (c, score rrfK legs id)).map Prod.fst =
        (seen legs).values.insertionSort fun c c' =>
          score rrfK legs c'.chunkId ≤ score rrfK legs c.chunkId := by
    rw [← hsort, ← hcand, List.filterMap_map, List.map_filterMap, ← List.filterMap_eq_map]
    refine List.filterMap_congr fun e he => ?_
    rw [Function.comp_apply, (entry_of_seen ((List.mem_insertionSort _).mp he)).1]
    rfl
  unfold fuse
  rw [map_upTo, hget]
  exact congrArg (List.take · _) rfl

end Assistant.Fusion
