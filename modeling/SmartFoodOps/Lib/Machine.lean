/-
Partial labelled machines and their runs.

A machine is a function `step : σ → ι → Option σ`: `none` says that the label
is not enabled in the state.  Nondeterminism lives in the labels, so a
schedule is a list of labels and every schedule can be executed.

* `exec` — execute a schedule;
* `Run step ok s is t` — the schedule `is` leads from `s` to `t`, and every
  step meets the condition `ok` on the state before it and its label;
* `Run.invariant` — what every allowed step preserves holds at the end of
  every run;
* `run_iff_exec` — without a condition, runs are exactly the executions;
* `exists_run_of_execOk` — a run with a decidable condition, found by executing it.
-/
import Mathlib.Data.Option.Basic
import Mathlib.Data.List.Basic

namespace Machine

variable {σ ι : Type*}

/-- Execute a schedule; `none` when some label is not enabled. -/
def exec (step : σ → ι → Option σ) : σ → List ι → Option σ
  | s, [] => some s
  | s, i :: is => (step s i).bind fun t => exec step t is

@[simp] theorem exec_nil (step : σ → ι → Option σ) (s : σ) : exec step s [] = some s := rfl

@[simp] theorem exec_cons (step : σ → ι → Option σ) (s : σ) (i : ι) (is : List ι) :
    exec step s (i :: is) = (step s i).bind fun t => exec step t is := rfl

theorem exec_append (step : σ → ι → Option σ) (s : σ) (is js : List ι) :
    exec step s (is ++ js) = (exec step s is).bind fun t => exec step t js := by
  induction is generalizing s with
  | nil => rfl
  | cons i is ih =>
    rw [List.cons_append, exec_cons, exec_cons, Option.bind_assoc]
    exact congrArg _ (funext fun t => ih t)

/-- The condition that every step meets. -/
def Always : σ → ι → Prop := fun _ _ => True

/-- The runs from `s` whose every step meets `ok`. -/
inductive Run (step : σ → ι → Option σ) (ok : σ → ι → Prop) (s : σ) : List ι → σ → Prop
  | nil : Run step ok s [] s
  | snoc {is : List ι} {t u : σ} {i : ι} :
      Run step ok s is t → ok t i → step t i = some u → Run step ok s (is ++ [i]) u

variable {step : σ → ι → Option σ} {ok : σ → ι → Prop} {s t u : σ} {is js : List ι}

/-- **Invariant rule.** -/
theorem Run.invariant {I : σ → Prop} (h0 : I s)
    (hstep : ∀ t i u, I t → ok t i → step t i = some u → I u)
    (h : Run step ok s is t) : I t := by
  induction h with
  | nil => exact h0
  | snoc _ hok hs ih => exact hstep _ _ _ ih hok hs

/-- A weaker condition has more runs. -/
theorem Run.mono {ok' : σ → ι → Prop} (himp : ∀ s i, ok s i → ok' s i)
    (h : Run step ok s is t) : Run step ok' s is t := by
  induction h with
  | nil => exact .nil
  | snoc _ hok hs ih => exact .snoc ih (himp _ _ hok) hs

/-- A run with a condition is a run without one. -/
theorem Run.forget (h : Run step ok s is t) : Run step Always s is t :=
  h.mono fun _ _ _ => trivial

theorem Run.cons {i : ι} (hok : ok s i) (hs : step s i = some t)
    (h : Run step ok t is u) : Run step ok s (i :: is) u := by
  induction h with
  | nil => exact Run.nil.snoc hok hs
  | snoc _ hok' hs' ih => exact Run.snoc ih hok' hs'

theorem Run.append (h : Run step ok s is t) (h' : Run step ok t js u) :
    Run step ok s (is ++ js) u := by
  induction h' with
  | nil => rwa [List.append_nil]
  | snoc _ hok hs ih => rw [← List.append_assoc]; exact .snoc ih hok hs

/-- Executions are the runs without a condition. -/
theorem run_iff_exec : Run step Always s is t ↔ exec step s is = some t := by
  constructor
  · intro h
    induction h with
    | nil => rfl
    | snoc _ _ hs ih => rw [exec_append, ih, Option.bind_some, exec_cons, hs]; rfl
  · intro h
    induction is generalizing s with
    | nil => cases h; exact .nil
    | cons i is ih =>
      obtain ⟨r, hr, h⟩ := Option.bind_eq_some_iff.mp h
      exact .cons trivial hr (ih h)

/-- Execute a schedule as long as its steps meet the condition. -/
def execOk (step : σ → ι → Option σ) (ok : σ → ι → Prop) [∀ s i, Decidable (ok s i)] :
    σ → List ι → Option σ
  | s, [] => some s
  | s, i :: is => if ok s i then (step s i).bind fun t => execOk step ok t is else none

theorem run_of_execOk [∀ s i, Decidable (ok s i)] (h : execOk step ok s is = some t) :
    Run step ok s is t := by
  induction is generalizing s with
  | nil => cases h; exact .nil
  | cons i is ih =>
    simp only [execOk] at h
    split at h
    · next hok =>
      obtain ⟨r, hr, h⟩ := Option.bind_eq_some_iff.mp h
      exact .cons hok hr (ih h)
    · cases h

/-- A decided fact about the state that an allowed schedule leads to. -/
theorem exists_run_of_execOk [∀ s i, Decidable (ok s i)] {p : σ → Bool}
    (h : (execOk step ok s is).map p = some true) : ∃ t, Run step ok s is t ∧ p t = true := by
  obtain ⟨t, ht, hp⟩ := Option.map_eq_some_iff.mp h
  exact ⟨t, run_of_execOk ht, hp⟩

instance (s : σ) (i : ι) : Decidable (Always s i) := inferInstanceAs (Decidable True)

/-- Two processes, for the examples of runs. -/
def p₀ : Fin 2 := ⟨0, Nat.two_pos⟩
def p₁ : Fin 2 := ⟨1, Nat.one_lt_two⟩

end Machine
