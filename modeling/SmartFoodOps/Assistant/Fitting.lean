/-
What is left of a conversation that is cut down to the cap of its route.

* `clip_spec` — a turn that does not fit is cut to a beginning that costs exactly what is left, and
  the loop of `clip` has nothing to do;
* `keep_spec` — the loop over the turns, from the newest back;
* `Cut`, `Fitted` — the system messages, and the newest turns behind them;
* `fit_spec` — `fit` raises exactly if the system messages fill the cap, and else returns that.
-/
import SmartFoodOps.Assistant.Budget
import Mathlib.Tactic.Ring
import Mathlib.Tactic.Set

namespace Assistant.Generation

variable {messages turns : List Message} {m : Message} {remaining budgetTokens n : ℕ}

/-! ### Clipping -/

theorem one_le_estimateTokens (text : String) : 1 ≤ estimateTokens text := Nat.le_max_left _ _

theorem estimateTokens_ofList {cs : List Char} :
    estimateTokens (String.ofList cs) = max 1 ((cs.length + 3) / 4) := by
  unfold estimateTokens
  rw [String.length_ofList]

/-- **A turn that does not fit** is cut to a beginning, and the beginning costs all that is left. -/
theorem clip_spec {content : String} (hbudget : 1 ≤ budgetTokens)
    (hcost : budgetTokens < estimateTokens content) :
    ∃ n, 1 ≤ n ∧ n < content.length ∧ clip content budgetTokens = String.ofList (content.toList.take n) ∧
      estimateTokens (clip content budgetTokens) = budgetTokens := by
  set length := content.length with hlength
  set price := estimateTokens content with hprice
  -- between `4 * price - 3` and `4 * price` characters have the price
  have hround : 4 * price ≤ length + 3 ∧ length ≤ 4 * price := by
    have hdef : price = max 1 ((length + 3) / 4) := rfl
    omega
  have hupper : length * budgetTokens / price ≤ 4 * budgetTokens := by
    refine Nat.div_le_of_le_mul ?_
    calc length * budgetTokens ≤ 4 * price * budgetTokens := Nat.mul_le_mul_right _ hround.2
      _ = price * (4 * budgetTokens) := by ring
  have hlower : 4 * budgetTokens ≤ length * budgetTokens / price + 3 := by
    have hfloor : length * budgetTokens < (length * budgetTokens / price + 1) * price := by
      have hpos : 0 < price := by omega
      have hmod := Nat.div_add_mod (length * budgetTokens) price
      have hlt := Nat.mod_lt (length * budgetTokens) hpos
      have hmul := Nat.mul_comm price (length * budgetTokens / price)
      rw [Nat.add_mul]
      omega
    have hscaled : 4 * price * budgetTokens ≤ (length + 3) * budgetTokens :=
      Nat.mul_le_mul_right _ hround.1
    have hless : 3 * budgetTokens < 3 * price := by omega
    have hproduct : 4 * budgetTokens * price < (length * budgetTokens / price + 4) * price := by
      calc 4 * budgetTokens * price = 4 * price * budgetTokens := by ring
        _ ≤ (length + 3) * budgetTokens := hscaled
        _ = length * budgetTokens + 3 * budgetTokens := by ring
        _ < (length * budgetTokens / price + 1) * price + 3 * price := Nat.add_lt_add hfloor hless
        _ = (length * budgetTokens / price + 4) * price := by ring
    have := Nat.lt_of_mul_lt_mul_right hproduct
    omega
  have hshort : length * budgetTokens / price < length := by
    refine Nat.div_lt_of_lt_mul ?_
    rw [Nat.mul_comm price]
    exact Nat.mul_lt_mul_of_pos_left hcost (by omega)
  set first := max 1 (length * budgetTokens / price) with hfirst
  have hone : 1 ≤ length * budgetTokens / price := by omega
  have hpiece : (content.toList.take first).length = first := by
    rw [List.length_take, String.length_toList]
    omega
  have hestimate : estimateTokens (String.ofList (content.toList.take first)) = budgetTokens := by
    rw [estimateTokens_ofList, hpiece]
    omega
  -- so the loop stops at once
  have hclip : clip content budgetTokens = String.ofList (content.toList.take first) := by
    unfold clip
    dsimp only
    rw [← hprice, ← hlength, ← hfirst]
    unfold clipFrom
    rw [dif_neg]
    rintro ⟨-, hlt⟩
    rw [hestimate] at hlt
    exact Nat.lt_irrefl _ hlt
  exact ⟨first, Nat.le_max_left _ _, by omega, hclip, by rw [hclip, hestimate]⟩

/-! ### The loop -/

/-- Turns that are kept: whole, or the only one of them shortened to a beginning of it. -/
inductive Cut : List Message → List Message → Prop
  | whole (taken : List Message) : Cut taken taken
  | clipped (m : Message) {n : ℕ} (some_left : 1 ≤ n) (shorter : n < m.content.length) :
    Cut [m] [{ m with content := String.ofList (m.content.toList.take n) }]

theorem Cut.reverse {taken kept : List Message} (h : Cut taken kept) :
    Cut taken.reverse kept.reverse := by
  cases h with
  | whole => exact .whole _
  | clipped m hn hlt => exact .clipped m hn hlt

/-- **The loop over the turns, the newest first**: it takes turns until one does not fit into what
is left; the newest of all is then cut, and nothing is left behind it. -/
theorem keep_spec {newest : Bool} (hremaining : newest = true → 1 ≤ remaining) :
    ∃ taken older, turns = taken ++ older ∧ Cut taken (keep remaining newest turns) ∧
      (newest = false → keep remaining newest turns = taken) ∧
      (∀ m ∈ older.head?, remaining <
        cost (keep remaining newest turns) + estimateTokens m.content) ∧
      (newest = true → turns ≠ [] → taken ≠ []) := by
  induction turns generalizing remaining newest with
  | nil => exact ⟨[], [], rfl, .whole _, fun _ => rfl, by simp, fun _ h => absurd rfl h⟩
  | cons m older ih =>
    unfold keep
    by_cases hfits : estimateTokens m.content ≤ remaining
    · -- what is behind the newest turn is not cut
      obtain ⟨taken, rest, rfl, -, hwhole, hmax, -⟩ :=
        @ih (remaining - estimateTokens m.content) false fun h => absurd h (by decide)
      rw [if_pos hfits, hwhole rfl]
      rw [hwhole rfl] at hmax
      refine ⟨m :: taken, rest, rfl, .whole _, fun _ => rfl, fun m' hm' => ?_,
        fun _ _ => List.cons_ne_nil _ _⟩
      have hlt := hmax m' hm'
      rw [cost_cons]
      omega
    · rw [if_neg hfits]
      cases newest with
      | false =>
        refine ⟨[], m :: older, rfl, .whole _, fun _ => rfl, fun m' hm' => ?_,
          fun h => absurd h (by decide)⟩
        obtain rfl : m = m' := Option.some.inj hm'
        rw [if_neg (by decide), cost_nil]
        omega
      | true =>
        have hleft := hremaining rfl
        obtain ⟨n, hn, hlt, hclip, hcost⟩ := clip_spec hleft (Nat.lt_of_not_le hfits)
        rw [if_pos rfl]
        refine ⟨[m], older, rfl, ?_, fun h => absurd h (by decide), fun m' _ => ?_,
          fun _ _ => List.cons_ne_nil _ _⟩
        · rw [hclip]
          exact .clipped m hn hlt
        · have hone := one_le_estimateTokens m'.content
          rw [cost_cons, cost_nil, hcost]
          omega

/-! ### The conversation -/

def systemOf (messages : List Message) : List Message := messages.filter fun m => m.role = .system

/-- The other messages. -/
def turnsOf (messages : List Message) : List Message := messages.filter fun m => m.role ≠ .system

/-- All system messages, and the newest turns behind them, as many as fit into the cap. -/
structure Fitted (cap : ℕ) (messages fitted : List Message) (older taken kept : List Message) :
    Prop where
  system : fitted = systemOf messages ++ kept
  turns : turnsOf messages = older ++ taken
  cut : Cut taken kept
  within : cost fitted ≤ cap
  /-- The next older turn does not fit as well. -/
  maximal : ∀ m ∈ older.getLast?, cap < cost (systemOf messages ++ m :: kept)
  newest : turnsOf messages ≠ [] → taken ≠ []

/-- **The three rules**: the system messages survive, the turns are the newest ones without a gap,
and the newest is cut at most. -/
theorem fit_spec (route : Route) (messages : List Message) :
    route.maxInputTokens ≤ cost (systemOf messages) ∧
        (∃ e, fit route messages = .error e ∧ e.kind = .valueError) ∨
      cost (systemOf messages) < route.maxInputTokens ∧
        ∃ fitted older taken kept, fit route messages = .ok (fitted, cost fitted) ∧
          Fitted route.maxInputTokens messages fitted older taken kept := by
  rcases Nat.lt_or_ge (cost (systemOf messages)) route.maxInputTokens with hcap | hcap
  · refine .inr ⟨hcap, ?_⟩
    set remaining := route.maxInputTokens - cost (systemOf messages) with hremaining
    obtain ⟨taken, older, hturns, hcut, -, hmax, hnewest⟩ :=
      @keep_spec (turnsOf messages).reverse remaining true fun _ => by omega
    set kept := keep remaining true (turnsOf messages).reverse with hkept
    have hfit : fit route messages = .ok (systemOf messages ++ kept.reverse,
        cost (systemOf messages ++ kept.reverse)) := by
      unfold fit
      exact if_neg (Nat.not_le_of_lt hcap)
    refine ⟨_, older.reverse, taken.reverse, kept.reverse, hfit, rfl, ?_, hcut.reverse, ?_, ?_, ?_⟩
    · rw [← List.reverse_reverse (turnsOf messages), hturns, List.reverse_append]
    · exact (cost_fit_le hfit).2
    · intro m hm
      rw [List.getLast?_reverse] at hm
      have hlt := hmax m hm
      rw [cost_append, cost_cons, cost_reverse]
      omega
    · intro hne hnil
      refine hnewest rfl (fun h => hne (List.reverse_eq_nil_iff.mp h)) ?_
      exact List.reverse_eq_nil_iff.mp hnil
  · exact .inl ⟨hcap, _, if_pos hcap, rfl⟩

end Assistant.Generation
