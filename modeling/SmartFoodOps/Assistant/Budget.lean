/-
What a call may cost, and who pays for it before it is made.

* `estimateTokens`, `clip`, `fit` — a conversation is cut down to the cap of its route;
* `cost_fit_le` — and is then below it;
* `BudgetGuard.admitPrompt`, `BudgetGuard.settle` — what is charged before a call, and after it.

Lengths are cut by exact fractions, as the floating-point numbers of the source do at the lengths
of prompts.
-/
import SmartFoodOps.Assistant.Router
import Mathlib.Algebra.Ring.Nat

open Interaction

namespace Assistant.Generation

/-! ### Fitting -/

def estimateTokens (text : String) : ℕ := max 1 ((text.length + 3) / 4)

/-- `_cost`. -/
def cost (messages : List Message) : ℕ := (messages.map fun m => estimateTokens m.content).sum

/-- The `while` of `_clip`. -/
def clipFrom (budgetTokens : ℕ) (cs : List Char) : List Char :=
  if h : cs ≠ [] ∧ budgetTokens < estimateTokens (String.ofList cs) then
    clipFrom budgetTokens (cs.take (cs.length * 9 / 10))
  else cs
termination_by cs.length
decreasing_by
  have := List.length_pos_of_ne_nil h.1
  rw [List.length_take]
  omega

/-- `_clip`. -/
def clip (content : String) (budgetTokens : ℕ) : String :=
  let first := max 1 (content.length * budgetTokens / estimateTokens content)
  String.ofList (clipFrom budgetTokens (content.toList.take first))

/-- The turns that are kept, the newest first; the newest of all is clipped if it does not fit. -/
def keep (remaining : ℕ) (newest : Bool) : List Message → List Message
  | [] => []
  | m :: older =>
    if estimateTokens m.content ≤ remaining then
      m :: keep (remaining - estimateTokens m.content) false older
    else if newest then [{ m with content := clip m.content remaining }]
    else []

def fit (route : Route) (messages : List Message) : Except Raised (List Message × ℕ) :=
  let system := messages.filter fun m => m.role = .system
  let history := messages.filter fun m => m.role ≠ .system
  if route.maxInputTokens ≤ cost system then
    .error ⟨.valueError, "system prompt alone exceeds the " ++ route.task.value ++ " input cap (" ++
      toString route.maxInputTokens ++ ") — a policy/config bug, not a runtime condition"⟩
  else
    let fitted := system ++ (keep (route.maxInputTokens - cost system) true history.reverse).reverse
    .ok (fitted, cost fitted)

variable {route : Route} {messages fitted : List Message} {tokens remaining : ℕ} {newest : Bool}

@[simp] theorem cost_nil : cost [] = 0 := rfl

theorem cost_cons {m : Message} :
    cost (m :: messages) = estimateTokens m.content + cost messages := by
  simp [cost]

theorem cost_append {messages' : List Message} :
    cost (messages ++ messages') = cost messages + cost messages' := by
  simp [cost]

theorem cost_reverse : cost messages.reverse = cost messages := by
  unfold cost
  rw [List.map_reverse, List.sum_reverse]

theorem estimateTokens_clipFrom {budgetTokens : ℕ} (hbudget : 1 ≤ budgetTokens) (cs : List Char) :
    estimateTokens (String.ofList (clipFrom budgetTokens cs)) ≤ budgetTokens := by
  induction cs using clipFrom.induct budgetTokens with
  | case1 cs h ih =>
    unfold clipFrom
    rw [dif_pos h]
    exact ih
  | case2 cs h =>
    unfold clipFrom
    rw [dif_neg h]
    by_cases hnil : cs = []
    · rw [hnil]
      exact hbudget
    · by_contra hlt
      exact h ⟨hnil, Nat.lt_of_not_le hlt⟩

theorem cost_keep_le (hremaining : newest = true → 1 ≤ remaining) :
    cost (keep remaining newest messages) ≤ remaining := by
  induction messages generalizing remaining newest with
  | nil => exact Nat.zero_le _
  | cons m older ih =>
    unfold keep
    split
    · next hle =>
      have hold : cost (keep (remaining - estimateTokens m.content) false older) ≤
          remaining - estimateTokens m.content := ih nofun
      rw [cost_cons]
      omega
    · split
      · next hnewest =>
        rw [cost_cons, cost_nil, Nat.add_zero]
        exact estimateTokens_clipFrom (hremaining hnewest) _
      · exact Nat.zero_le _

/-- **What is fitted is within the cap**, and the tokens that are charged are its own. -/
theorem cost_fit_le (h : fit route messages = .ok (fitted, tokens)) :
    tokens = cost fitted ∧ cost fitted ≤ route.maxInputTokens := by
  unfold fit at h
  dsimp only at h
  split at h
  · cases h
  · next hcap =>
    cases h
    have hkeep := @cost_keep_le (messages.filter fun m => m.role ≠ .system).reverse
      (route.maxInputTokens - cost (messages.filter fun m => m.role = .system)) true
      fun _ => by omega
    refine ⟨rfl, ?_⟩
    rw [cost_append, cost_reverse]
    omega

/-! ### The guard -/

/-- `BudgetGuard`, with the estimate that it has by default; `store` is whether there is one. -/
structure BudgetGuard where
  cellId : String
  userBudget : ℕ
  userWindowS : ℕ
  cellBudget : ℕ
  cellWindowS : ℕ
  store : Bool

/-- `RedisBudgetStore.consume`. -/
def consume (key : String) (tokens budget windowS : ℕ) : Plane Bool := do
  let total ← Interaction.Task.await (.incrby key tokens) fun r => r
  Interaction.Task.await (.expire key windowS) fun r => r
  pure (total ≤ budget)

namespace BudgetGuard

open Interaction.Task

variable (g : BudgetGuard)

def cellKey : String := "assistant:cb:" ++ g.cellId

def userKey (subject : String) : String := "assistant:budget:" ++ subject

/-- `BudgetGuard.admit`: the prompt is fitted, and then paid for. -/
def admitPrompt (route : Route) (subject : String) (messages : List Message) :
    Plane (List Message) :=
  match fit route messages with
  | .error e => raise e
  | .ok (fitted, tokens) =>
    if g.store then do
      let within ← consume g.cellKey tokens g.cellBudget g.cellWindowS
      if within then do
        let within ← consume (userKey subject) tokens g.userBudget g.userWindowS
        if within then pure fitted
        else raise ⟨.budgetExceeded, "token budget exhausted for this subject"⟩
      else raise ⟨.planeShed, "cell " ++ g.cellId ++ " token budget exhausted"⟩
    else pure fitted

def settle (subject : String) (tokens : ℕ) : Plane Unit :=
  if g.store && tokens ≠ 0 then do
    let _ ← consume g.cellKey tokens g.cellBudget g.cellWindowS
    let _ ← consume (userKey subject) tokens g.userBudget g.userWindowS
    pure ()
  else pure ()

end BudgetGuard

end Assistant.Generation
