/-
Durable flows whose activities are executed at least once.

A flow is deterministic: in each position it either has one activity pending or
waits, and it goes on by the result of the activity or by what it waits for.
The attempts at the pending activity are made by a worker.  An attempt is a
sequence of steps on a world that others change too; it can be lost anywhere,
also after its last step, and then the next attempt begins from the start.  An
activity under a deadline can be given up at any moment.

* `Flow`, `Worker` — what is written once and for all;
* `move` — what can happen to one flow;
* `familyStep` — the flows of many keys over one world, and its environment;
* `family_invariant` — an invariant of one key's flow and of what this key sees
  of the world, from its own moves, from the environment, and from the frame;
* `run_report`, `run_refused` — a pending activity whose attempt can be answered, or
  fails for good, is left.
-/
import SmartFoodOps.Lib.Machine
import Mathlib.Logic.Function.Basic

namespace Durable

open Machine

/-- Where an attempt at an activity is. -/
inductive Attempt (φ ρ : Type*)
  | working (phase : φ)
  | answered (result : ρ)
  | refused
  deriving DecidableEq, Repr

/-- What a flow does in each of its positions. -/
structure Flow (π α ρ σ ε : Type*) where
  /-- The activity that is executed; `none` in a wait. -/
  pending : π → Option α
  /-- Whether the activity has a deadline. -/
  bounded : π → Bool
  answered : π → ρ → π
  /-- A failure that is not retried. -/
  refused : π → π
  expired : π → π
  /-- A signal is noted wherever the flow is. -/
  signal : π → σ → π
  event : π → ε → Option π

/-- How the attempts at activities are executed. -/
structure Worker (κ ω α φ χ ρ : Type*) where
  first : φ
  work : κ → α → φ → χ → ω → Option (ω × Attempt φ ρ)

/-- A flow in progress. -/
structure Inst (π φ ρ : Type*) where
  pos : π
  attempt : Attempt φ ρ
  deriving DecidableEq, Repr

/-- The phases of an attempt that sends one request and waits for the answer to it. -/
inductive CallPhase
  | send
  | waiting (pid : ℕ)
  deriving DecidableEq, Repr

/-- What happens to a flow. -/
inductive Move (χ σ ε : Type*)
  /-- The attempt makes its next step. -/
  | work (input : χ)
  /-- The attempt is lost. -/
  | lose
  /-- The result of the attempt reaches the flow. -/
  | report
  /-- The deadline passes. -/
  | expire
  | signal (s : σ)
  | event (e : ε)
  deriving DecidableEq, Repr

section

variable {κ ω π α φ χ ρ σ ε ν : Type*}

def Inst.enter (W : Worker κ ω α φ χ ρ) (pos : π) : Inst π φ ρ := ⟨pos, .working W.first⟩

@[simp] theorem Inst.enter_pos (W : Worker κ ω α φ χ ρ) (pos : π) : (Inst.enter W pos).pos = pos :=
  rfl

@[simp] theorem Inst.enter_attempt (W : Worker κ ω α φ χ ρ) (pos : π) :
    (Inst.enter W pos).attempt = .working W.first := rfl

/-- One move of the flow of `k`. -/
def move (F : Flow π α ρ σ ε) (W : Worker κ ω α φ χ ρ) (k : κ) (w : ω) (i : Inst π φ ρ) :
    Move χ σ ε → Option (ω × Inst π φ ρ)
  | .work input =>
    match F.pending i.pos, i.attempt with
    | some a, .working phase =>
      (W.work k a phase input w).map fun (w', attempt) => (w', { i with attempt := attempt })
    | _, _ => none
  | .lose => (F.pending i.pos).map fun _ => (w, .enter W i.pos)
  | .report =>
    match F.pending i.pos, i.attempt with
    | some _, .answered result => some (w, .enter W (F.answered i.pos result))
    | some _, .refused => some (w, .enter W (F.refused i.pos))
    | _, _ => none
  | .expire =>
    if (F.pending i.pos).isSome ∧ F.bounded i.pos then some (w, .enter W (F.expired i.pos))
    else none
  | .signal s => some (w, { i with pos := F.signal i.pos s })
  | .event e => (F.event i.pos e).map fun pos => (w, .enter W pos)

variable {F : Flow π α ρ σ ε} {W : Worker κ ω α φ χ ρ} {k : κ} {w w' : ω} {i i' : Inst π φ ρ}

/-- The moves that change the world are those of the worker. -/
theorem move_cases {m : Move χ σ ε} (h : move F W k w i m = some (w', i')) :
    (∃ input a phase attempt, m = .work input ∧ F.pending i.pos = some a ∧
      i.attempt = .working phase ∧ W.work k a phase input w = some (w', attempt) ∧
      i' = ⟨i.pos, attempt⟩) ∨
    w' = w ∧
      (m = .lose ∧ (∃ a, F.pending i.pos = some a) ∧ i' = .enter W i.pos ∨
      (∃ a result, m = .report ∧ F.pending i.pos = some a ∧ i.attempt = .answered result ∧
        i' = .enter W (F.answered i.pos result)) ∨
      (∃ a, m = .report ∧ F.pending i.pos = some a ∧ i.attempt = .refused ∧
        i' = .enter W (F.refused i.pos)) ∨
      (∃ a, m = .expire ∧ F.pending i.pos = some a ∧ F.bounded i.pos = true ∧
        i' = .enter W (F.expired i.pos)) ∨
      (∃ s, m = .signal s ∧ i' = ⟨F.signal i.pos s, i.attempt⟩) ∨
      ∃ e pos, m = .event e ∧ F.event i.pos e = some pos ∧ i' = .enter W pos) := by
  cases m with
  | work input =>
    simp only [move] at h
    split at h
    · next a phase ha hp =>
      obtain ⟨⟨v, attempt⟩, hw, he⟩ := Option.map_eq_some_iff.mp h
      cases he
      exact .inl ⟨input, a, phase, attempt, rfl, ha, hp, hw, rfl⟩
    · cases h
  | lose =>
    obtain ⟨a, ha, he⟩ := Option.map_eq_some_iff.mp h
    cases he
    exact .inr ⟨rfl, .inl ⟨rfl, ⟨a, ha⟩, rfl⟩⟩
  | report =>
    simp only [move] at h
    split at h
    · next a result ha hr =>
      cases h
      exact .inr ⟨rfl, .inr (.inl ⟨a, result, rfl, ha, hr, rfl⟩)⟩
    · next a ha hr =>
      cases h
      exact .inr ⟨rfl, .inr (.inr (.inl ⟨a, rfl, ha, hr, rfl⟩))⟩
    · cases h
  | expire =>
    simp only [move] at h
    split at h
    · next hb =>
      cases h
      obtain ⟨a, ha⟩ := Option.isSome_iff_exists.mp hb.1
      exact .inr ⟨rfl, .inr (.inr (.inr (.inl ⟨a, rfl, ha, hb.2, rfl⟩)))⟩
    · cases h
  | signal s =>
    cases h
    exact .inr ⟨rfl, .inr (.inr (.inr (.inr (.inl ⟨s, rfl, rfl⟩))))⟩
  | event e =>
    obtain ⟨pos, hp, he⟩ := Option.map_eq_some_iff.mp h
    cases he
    exact .inr ⟨rfl, .inr (.inr (.inr (.inr (.inr ⟨e, pos, rfl, hp, rfl⟩))))⟩

/-! ### Many flows over one world -/

/-- The world and the flow of each key. -/
structure Family (κ ω π φ ρ : Type*) where
  world : ω
  insts : κ → Inst π φ ρ

inductive Label (κ χ σ ε ν : Type*)
  | flow (k : κ) (m : Move χ σ ε)
  | env (e : ν)
  deriving DecidableEq, Repr

variable [DecidableEq κ]

def familyStep (F : Flow π α ρ σ ε) (W : Worker κ ω α φ χ ρ) (env : ν → ω → Option ω)
    (s : Family κ ω π φ ρ) : Label κ χ σ ε ν → Option (Family κ ω π φ ρ)
  | .flow k m =>
    (move F W k s.world (s.insts k) m).map fun (w, i) => ⟨w, Function.update s.insts k i⟩
  | .env e => (env e s.world).map fun w => { s with world := w }

variable {env : ν → ω → Option ω} {s s' : Family κ ω π φ ρ} {is : List (Label κ χ σ ε ν)}
  {ok : Family κ ω π φ ρ → Label κ χ σ ε ν → Prop}

/-- **Rely rule.**  What one key sees of the world changes by its own moves and by
the environment only, so an invariant of its flow and its view is proved from these. -/
theorem family_invariant {V : Type*} (k : κ) (view : ω → V) (I : V → Inst π φ ρ → Prop)
    (frame : ∀ j a phase input w w' attempt, j ≠ k →
      W.work j a phase input w = some (w', attempt) → view w' = view w)
    (own : ∀ t m w' i', I (view t.world) (t.insts k) → ok t (.flow k m) →
      move F W k t.world (t.insts k) m = some (w', i') → I (view w') i')
    (others : ∀ t e w', I (view t.world) (t.insts k) → ok t (.env e) →
      env e t.world = some w' → I (view w') (t.insts k))
    (h0 : I (view s.world) (s.insts k))
    (h : Run (familyStep F W env) ok s is s') : I (view s'.world) (s'.insts k) := by
  refine Run.invariant (I := fun t => I (view t.world) (t.insts k)) h0 ?_ h
  intro t l u hI hok hstep
  cases l with
  | flow j m =>
    obtain ⟨⟨w', i'⟩, hm, rfl⟩ := Option.map_eq_some_iff.mp hstep
    show I (view w') (Function.update t.insts j i' k)
    by_cases hj : k = j
    · subst hj
      rw [Function.update_self]
      exact own t m w' i' hI hok hm
    · rw [Function.update_of_ne hj]
      have hview : view w' = view t.world := by
        rcases move_cases hm with ⟨input, a, phase, attempt, -, -, -, hw, -⟩ | ⟨rfl, -⟩
        · exact frame j a phase input t.world w' attempt (Ne.symm hj) hw
        · rfl
      rw [hview]
      exact hI
  | env e =>
    obtain ⟨w', he, rfl⟩ := Option.map_eq_some_iff.mp hstep
    exact others t e w' hI hok he

/-- A move of one flow, as a step of the family. -/
theorem familyStep_flow {m : Move χ σ ε} (h : move F W k s.world (s.insts k) m = some (w', i')) :
    familyStep F W env s (.flow k m) = some ⟨w', Function.update s.insts k i'⟩ := by
  simp [familyStep, h]

/-- An answered attempt is reported. -/
theorem familyStep_report {a : α} {result : ρ} (hpending : F.pending (s.insts k).pos = some a)
    (hattempt : (s.insts k).attempt = .answered result) :
    familyStep F W env s (.flow k .report) =
      some ⟨s.world, Function.update s.insts k (.enter W (F.answered (s.insts k).pos result))⟩ :=
  familyStep_flow (by simp [move, hpending, hattempt])

/-- **Progress rule.**  A pending activity whose attempt can be answered is answered. -/
theorem run_report {a : α} {input : χ} {result : ρ} (hpending : F.pending (s.insts k).pos = some a)
    (hattempt : (s.insts k).attempt = .working W.first)
    (hwork : W.work k a W.first input s.world = some (w', .answered result))
    (hok : ∀ t m, ok t (.flow k m)) :
    Run (familyStep F W env) ok s [.flow k (.work input), .flow k .report]
      ⟨w', Function.update s.insts k (.enter W (F.answered (s.insts k).pos result))⟩ := by
  have hmove : move F W k s.world (s.insts k) (.work input) =
      some (w', ⟨(s.insts k).pos, .answered result⟩) := by
    simp [move, hpending, hattempt, hwork]
  refine Run.cons (hok _ _) (familyStep_flow hmove) (Run.cons (hok _ _) ?_ .nil)
  simp [familyStep, move, hpending]

/-- The failure of an attempt that is not retried reaches the flow. -/
theorem run_refused {a : α} {input : χ} (hpending : F.pending (s.insts k).pos = some a)
    (hattempt : (s.insts k).attempt = .working W.first)
    (hwork : W.work k a W.first input s.world = some (w', .refused))
    (hok : ∀ t m, ok t (.flow k m)) :
    Run (familyStep F W env) ok s [.flow k (.work input), .flow k .report]
      ⟨w', Function.update s.insts k (.enter W (F.refused (s.insts k).pos))⟩ := by
  have hmove : move F W k s.world (s.insts k) (.work input) =
      some (w', ⟨(s.insts k).pos, .refused⟩) := by
    simp [move, hpending, hattempt, hwork]
  refine Run.cons (hok _ _) (familyStep_flow hmove) (Run.cons (hok _ _) ?_ .nil)
  simp [familyStep, move, hpending]

end

end Durable
