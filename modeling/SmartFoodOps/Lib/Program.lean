/-
Transactions as programs of statements.

A statement reads the database as its transaction sees it, answers, and may write; what
a transaction has written so far is a list of writes, and it sees the committed database
with its own writes applied.  A statement that answers `none` has violated a constraint.

* `Prog` — the programs, with `bind`; a value that is drawn (an identifier, the time) is
  drawn for a purpose;
* `Prog.advance` — execute the next statement;
* `Outcome` — what a program that runs alone can come to (`outcome_bind`);
* `Prog.run` — run a program alone, with given values to draw (`run_bind`, `run_outcome`);
* `Replay` — how far a program gets on a database; as long as what it has read still
  holds, it gets there on another one (`Replay.moved`), and when it is through, its
  outcome is one of a program that runs alone there (`Replay.outcome`);
* `Ensures` — what holds when a program ends, whatever its statements saw (`ensures_bind`),
  and so of its outcomes (`Ensures.outcome`);
* `Beside` — what holds of each statement, while others change the database in a way that
  keeps what has been read (`beside_bind`, `Beside.advance`).
-/
import Mathlib.Data.List.Basic

set_option linter.unusedSectionVars false

namespace Program

/-- A program over a database `δ` with writes `ω`, errors `ε` and purposes `π`. -/
inductive Prog (δ ω ε π : Type) (α : Type) : Type 1
  | ret (a : α)
  | fail (e : ε)
  | stmt {β : Type} [DecidableEq β] (s : δ → Option (β × List ω)) (k : β → Prog δ ω ε π α)
  | draw (purpose : π) (k : ℕ → Prog δ ω ε π α)

variable {δ ω ε π α β : Type}

namespace Prog

def bind : Prog δ ω ε π α → (α → Prog δ ω ε π β) → Prog δ ω ε π β
  | ret a, f => f a
  | fail e, _ => .fail e
  | stmt s k, f => .stmt s fun b => (k b).bind f
  | draw p k, f => .draw p fun u => (k u).bind f

instance : Monad (Prog δ ω ε π) where
  pure := ret
  bind := bind

@[simp] theorem pure_eq (a : α) : (pure a : Prog δ ω ε π α) = ret a := rfl

@[simp] theorem bind_eq (p : Prog δ ω ε π α) (f : α → Prog δ ω ε π β) : p >>= f = p.bind f := rfl

/-- A statement that only reads. -/
def select [DecidableEq α] (q : δ → α) : Prog δ ω ε π α := .stmt (fun db => some (q db, [])) .ret

/-- A statement that writes. -/
def execute [DecidableEq α] (s : δ → Option (α × List ω)) : Prog δ ω ε π α := .stmt s .ret

end Prog

variable [DecidableEq ω] (apply : ω → δ → δ) (Drawn : π → ℕ → Prop)

/-- The database after some writes. -/
def applyAll (ws : List ω) (db : δ) : δ := ws.foldl (fun db w => apply w db) db

@[simp] theorem applyAll_nil (db : δ) : applyAll apply [] db = db := rfl

theorem applyAll_cons (w : ω) (ws : List ω) (db : δ) :
    applyAll apply (w :: ws) db = applyAll apply ws (apply w db) := rfl

theorem applyAll_append (ws ws' : List ω) (db : δ) :
    applyAll apply (ws ++ ws') db = applyAll apply ws' (applyAll apply ws db) :=
  List.foldl_append ..

variable {apply} in
/-- What every write keeps. -/
theorem applyAll_induction {I : δ → Prop} {W : ω → Prop}
    (hw : ∀ w db, W w → I db → I (apply w db)) {ws : List ω} (hws : ∀ w ∈ ws, W w) {db : δ}
    (h : I db) : I (applyAll apply ws db) := by
  induction ws generalizing db with
  | nil => exact h
  | cons w ws ih =>
    exact ih (fun x hx => hws x (List.mem_cons_of_mem w hx))
      (hw w db (hws w List.mem_cons_self) h)

/-! ### Running alone -/

/-- The outcomes of a program that runs alone on a database. -/
def Outcome : Prog δ ω ε π α → δ → α → List ω → Prop
  | .ret a, _, a', ws => a' = a ∧ ws = []
  | .fail _, _, _, _ => False
  | @Prog.stmt _ _ _ _ _ _ _ s k, db, a', ws => ∃ b w ws', s db = some (b, w) ∧ ws = w ++ ws' ∧
      Outcome (k b) (applyAll apply w db) a' ws'
  | .draw p k, db, a', ws => ∃ u, Drawn p u ∧ Outcome (k u) db a' ws

theorem outcome_bind {p : Prog δ ω ε π α} {f : α → Prog δ ω ε π β} {db : δ} {b : β}
    {ws : List ω} : Outcome apply Drawn (p.bind f) db b ws ↔
      ∃ a w w', Outcome apply Drawn p db a w ∧ ws = w ++ w' ∧
        Outcome apply Drawn (f a) (applyAll apply w db) b w' := by
  induction p generalizing db ws with
  | ret a =>
    constructor
    · intro h
      exact ⟨a, [], ws, ⟨rfl, rfl⟩, rfl, h⟩
    · rintro ⟨_, _, w', ⟨rfl, rfl⟩, rfl, h⟩
      exact h
  | fail e =>
    constructor
    · exact False.elim
    · rintro ⟨_, _, _, h, -⟩
      exact h
  | stmt s k ih =>
    constructor
    · rintro ⟨c, w, ws', hs, rfl, h⟩
      obtain ⟨a, w₁, w₂, h₁, rfl, h₂⟩ := (ih c).mp h
      refine ⟨a, w ++ w₁, w₂, ⟨c, w, w₁, hs, rfl, h₁⟩, (List.append_assoc ..).symm, ?_⟩
      rwa [applyAll_append]
    · rintro ⟨a, _, w₂, ⟨c, w, w₁, hs, rfl, h₁⟩, rfl, h₂⟩
      refine ⟨c, w, w₁ ++ w₂, hs, List.append_assoc .., (ih c).mpr ⟨a, w₁, w₂, h₁, rfl, ?_⟩⟩
      rwa [applyAll_append] at h₂
  | draw purpose k ih =>
    constructor
    · rintro ⟨u, hu, h⟩
      obtain ⟨a, w₁, w₂, h₁, rfl, h₂⟩ := (ih u).mp h
      exact ⟨a, w₁, w₂, ⟨u, hu, h₁⟩, rfl, h₂⟩
    · rintro ⟨a, w₁, w₂, ⟨u, hu, h₁⟩, rfl, h₂⟩
      exact ⟨u, hu, (ih u).mpr ⟨a, w₁, w₂, h₁, rfl, h₂⟩⟩

theorem outcome_select [DecidableEq α] {q : δ → α} {db : δ} {a : α} {ws : List ω} :
    Outcome apply Drawn (Prog.select q : Prog δ ω ε π α) db a ws ↔ a = q db ∧ ws = [] := by
  constructor
  · rintro ⟨_, _, _, h, rfl, rfl, rfl⟩
    cases h
    exact ⟨rfl, rfl⟩
  · rintro ⟨rfl, rfl⟩
    exact ⟨_, [], [], rfl, rfl, rfl, rfl⟩

theorem outcome_execute [DecidableEq α] {s : δ → Option (α × List ω)} {db : δ} {a : α}
    {ws : List ω} :
    Outcome apply Drawn (Prog.execute s : Prog δ ω ε π α) db a ws ↔ s db = some (a, ws) := by
  constructor
  · rintro ⟨b, w, _, h, rfl, rfl, rfl⟩
    rwa [List.append_nil]
  · intro h
    exact ⟨a, ws, [], h, (List.append_nil ws).symm, rfl, rfl⟩

/-! ### Executing a program alone -/

section

variable [∀ p u, Decidable (Drawn p u)]

/-- Run a program that has written `ws`, alone and with the values that it draws: its
result or error, and the values that are left.  `none`: a statement has violated a
constraint, or the next value is not one that can be drawn. -/
def Prog.run (db : δ) : List ω → List ℕ → Prog δ ω ε π α →
    Option (Except ε (α × List ω) × List ℕ)
  | ws, us, .ret a => some (.ok (a, ws), us)
  | _, us, .fail e => some (.error e, us)
  | ws, us, @Prog.stmt _ _ _ _ _ _ _ s k =>
    (s (applyAll apply ws db)).bind fun (b, w) => (k b).run db (ws ++ w) us
  | _, [], .draw _ _ => none
  | ws, u :: us, .draw p k => if Drawn p u then (k u).run db ws us else none

/-- The next program, on the result of the one before. -/
def Prog.runNext (db : δ) (f : α → Prog δ ω ε π β) :
    Except ε (α × List ω) × List ℕ → Option (Except ε (β × List ω) × List ℕ)
  | (.ok (a, ws), us) => (f a).run apply Drawn db ws us
  | (.error e, us) => some (.error e, us)

theorem run_bind (p : Prog δ ω ε π α) (f : α → Prog δ ω ε π β) (db : δ) (ws : List ω)
    (us : List ℕ) : (p.bind f).run apply Drawn db ws us =
      (p.run apply Drawn db ws us).bind (Prog.runNext apply Drawn db f) := by
  induction p generalizing ws us with
  | ret a => rfl
  | fail e => rfl
  | stmt s k ih =>
    simp only [Prog.bind, Prog.run, Option.bind_assoc]
    exact congrArg _ (funext fun bw => ih bw.1 _ _)
  | draw purpose k ih =>
    cases us with
    | nil => rfl
    | cons u us =>
      simp only [Prog.bind, Prog.run]
      split
      · exact ih u ws us
      · rfl

theorem run_select [DecidableEq α] (q : δ → α) (db : δ) (ws : List ω) (us : List ℕ) :
    (Prog.select q : Prog δ ω ε π α).run apply Drawn db ws us =
      some (.ok (q (applyAll apply ws db), ws), us) := by
  show some (Except.ok (q (applyAll apply ws db), ws ++ []), us) = _
  rw [List.append_nil]

theorem run_execute [DecidableEq α] (s : δ → Option (α × List ω)) (db : δ) (ws : List ω)
    (us : List ℕ) : (Prog.execute s : Prog δ ω ε π α).run apply Drawn db ws us =
      (s (applyAll apply ws db)).map fun (a, w) => (.ok (a, ws ++ w), us) := by
  show (s (applyAll apply ws db)).bind _ = _
  cases s (applyAll apply ws db) <;> rfl

/-- What a program that is executed alone comes to. -/
theorem run_outcome {p : Prog δ ω ε π α} {db : δ} {ws ws' : List ω} {us us' : List ℕ} {a : α}
    (h : p.run apply Drawn db ws us = some (.ok (a, ws'), us')) :
    ∃ w, ws' = ws ++ w ∧ Outcome apply Drawn p (applyAll apply ws db) a w := by
  induction p generalizing ws us with
  | ret b =>
    cases h
    exact ⟨[], (List.append_nil _).symm, rfl, rfl⟩
  | fail e => cases h
  | stmt s k ih =>
    obtain ⟨⟨b, w⟩, hs, h⟩ := Option.bind_eq_some_iff.mp h
    obtain ⟨w', rfl, ho⟩ := ih b h
    rw [applyAll_append] at ho
    exact ⟨w ++ w', List.append_assoc .., b, w, w', hs, rfl, ho⟩
  | draw purpose k ih =>
    cases us with
    | nil => cases h
    | cons u us =>
      have h : (if Drawn purpose u then (k u).run apply Drawn db ws us else none) = _ := h
      split at h
      · next hu =>
        obtain ⟨w, rfl, ho⟩ := ih u h
        exact ⟨w, rfl, u, hu, ho⟩
      · cases h

end

/-! ### Replays -/

/-- What a statement has answered, of the database that its transaction started from. -/
def fact [DecidableEq β] (s : δ → Option (β × List ω)) (ws : List ω) (b : β) (w : List ω) :
    δ → Bool := fun db => decide (s (applyAll apply ws db) = some (b, w))

/-- Executed on `db`, the program comes from `p₀` to a point with some writes; `facts` are
the answers that it got. -/
inductive Replay (db : δ) (p₀ : Prog δ ω ε π α) :
    List (δ → Bool) → Prog δ ω ε π α → List ω → Prop
  | start : Replay db p₀ [] p₀ []
  | stmt {β : Type} [DecidableEq β] {s : δ → Option (β × List ω)} {k : β → Prog δ ω ε π α}
      {facts : List (δ → Bool)} {ws : List ω} {b : β} {w : List ω} :
      Replay db p₀ facts (.stmt s k) ws → s (applyAll apply ws db) = some (b, w) →
        Replay db p₀ (facts ++ [fact apply s ws b w]) (k b) (ws ++ w)
  | draw {purpose : π} {k : ℕ → Prog δ ω ε π α} {facts : List (δ → Bool)} {ws : List ω}
      {u : ℕ} : Replay db p₀ facts (.draw purpose k) ws → Drawn purpose u →
        Replay db p₀ facts (k u) ws

variable {apply Drawn} {db db' : δ} {p₀ p : Prog δ ω ε π α} {facts : List (δ → Bool)}
  {ws : List ω}

section

variable (apply Drawn) [∀ p u, Decidable (Drawn p u)]

/-- The next statement of a program that started on `db` and has written `ws`; a value that
it draws is `u`. -/
def Prog.advance (db : δ) (ws : List ω) (u : ℕ) :
    Prog δ ω ε π α → Option (Prog δ ω ε π α × List ω × List (δ → Bool))
  | @Prog.stmt _ _ _ _ _ _ _ s k =>
    (s (applyAll apply ws db)).map fun (b, w) => (k b, w, [fact apply s ws b w])
  | .draw p k => if Drawn p u then some (k u, [], []) else none
  | .ret _ | .fail _ => none

end

theorem Replay.advance [∀ p u, Decidable (Drawn p u)] {p' : Prog δ ω ε π α} {w : List ω}
    {facts' : List (δ → Bool)} {u : ℕ} (h : Replay apply Drawn db p₀ facts p ws)
    (ha : p.advance apply Drawn db ws u = some (p', w, facts')) :
    Replay apply Drawn db p₀ (facts ++ facts') p' (ws ++ w) := by
  cases p with
  | ret a | fail e => cases ha
  | stmt s k =>
    obtain ⟨⟨b, w⟩, hs, ha⟩ := Option.map_eq_some_iff.mp ha
    cases ha
    exact .stmt h hs
  | draw purpose k =>
    simp only [Prog.advance] at ha
    split at ha
    · next hu =>
      cases ha
      rw [List.append_nil, List.append_nil]
      exact .draw h hu
    · cases ha

/-- **A program replays wherever it gets the same answers.** -/
theorem Replay.moved (h : Replay apply Drawn db p₀ facts p ws) (hf : ∀ f ∈ facts, f db') :
    Replay apply Drawn db' p₀ facts p ws := by
  induction h with
  | start => exact .start
  | stmt _ _ ih =>
    refine .stmt (ih fun f hmem => hf f (List.mem_append_left _ hmem)) ?_
    exact of_decide_eq_true (hf _ (List.mem_append_right _ (List.mem_singleton_self _)))
  | draw _ hu ih => exact .draw (ih hf) hu

/-- What a program can still come to is an outcome of the whole. -/
theorem Replay.completes (h : Replay apply Drawn db p₀ facts p ws) {a : α} {ws' : List ω}
    (ho : Outcome apply Drawn p (applyAll apply ws db) a ws') :
    Outcome apply Drawn p₀ db a (ws ++ ws') := by
  induction h generalizing ws' with
  | start => exact ho
  | stmt _ hs ih =>
    rw [List.append_assoc]
    refine ih ⟨_, _, _, hs, rfl, ?_⟩
    rwa [applyAll_append] at ho
  | draw _ hu ih => exact ih ⟨_, hu, ho⟩

theorem Replay.outcome {a : α} (h : Replay apply Drawn db p₀ facts (.ret a) ws) :
    Outcome apply Drawn p₀ db a ws := by
  have ho : Outcome apply Drawn p₀ db a (ws ++ []) := h.completes ⟨rfl, rfl⟩
  rwa [List.append_nil] at ho

/-! ### What a program ensures -/

section

variable (I : δ → Prop) (W : ω → Prop) (Drawn)

/-- From the writes `ws` on, whatever databases with `I` the statements see: every write
is a `W`, and the result and all writes satisfy `Q`. -/
def Ensures : Prog δ ω ε π α → (α → List ω → Prop) → List ω → Prop
  | .ret a, Q, ws => Q a ws
  | .fail _, _, _ => True
  | @Prog.stmt _ _ _ _ _ _ _ s k, Q, ws => ∀ db b w, I db → s db = some (b, w) →
      (∀ x ∈ w, W x) ∧ Ensures (k b) Q (ws ++ w)
  | .draw p k, Q, ws => ∀ u, Drawn p u → Ensures (k u) Q ws

variable {Drawn I W}

theorem ensures_bind {p : Prog δ ω ε π α} {f : α → Prog δ ω ε π β}
    {Q : β → List ω → Prop} {ws : List ω} : Ensures Drawn I W (p.bind f) Q ws ↔
      Ensures Drawn I W p (fun a ws' => Ensures Drawn I W (f a) Q ws') ws := by
  induction p generalizing ws with
  | ret a => exact Iff.rfl
  | fail e => exact Iff.rfl
  | stmt s k ih =>
    exact forall₃_congr fun db b w => forall₂_congr fun _ _ => and_congr_right fun _ => ih b
  | draw purpose k ih => exact forall₂_congr fun u _ => ih u

theorem Ensures.mono {p : Prog δ ω ε π α} {Q Q' : α → List ω → Prop} {ws : List ω}
    (h : Ensures Drawn I W p Q ws) (hQ : ∀ a ws', Q a ws' → Q' a ws') :
    Ensures Drawn I W p Q' ws := by
  induction p generalizing ws with
  | ret a => exact hQ a ws h
  | fail e => trivial
  | stmt s k ih =>
    intro db b w hI hs
    exact ⟨(h db b w hI hs).1, ih b (h db b w hI hs).2⟩
  | draw purpose k ih => exact fun u hu => ih u (h u hu)

/-- What a write is, weakened. -/
theorem Ensures.weaken {W' : ω → Prop} {p : Prog δ ω ε π α} {Q : α → List ω → Prop} {ws : List ω}
    (h : Ensures Drawn I W p Q ws) (hW : ∀ w, W w → W' w) : Ensures Drawn I W' p Q ws := by
  induction p generalizing ws with
  | ret a => exact h
  | fail e => trivial
  | stmt s k ih =>
    intro db b w hI hs
    obtain ⟨hw, hk⟩ := h db b w hI hs
    exact ⟨fun x hx => hW x (hw x hx), ih b hk⟩
  | draw purpose k ih => exact fun u hu => ih u (h u hu)

/-- The writes from before stay in front. -/
theorem Ensures.append {p : Prog δ ω ε π α} {Q : α → List ω → Prop} {pre ws : List ω}
    (h : Ensures Drawn I W p (fun a ws' => Q a (pre ++ ws')) ws) :
    Ensures Drawn I W p Q (pre ++ ws) := by
  induction p generalizing ws with
  | ret a => exact h
  | fail e => trivial
  | stmt s k ih =>
    intro db b w hI hs
    obtain ⟨hw, hk⟩ := h db b w hI hs
    rw [List.append_assoc]
    exact ⟨hw, ih b hk⟩
  | draw purpose k ih => exact fun u hu => ih u (h u hu)

theorem ensures_select [DecidableEq α] {q : δ → α} {Q : α → List ω → Prop} {ws : List ω}
    (h : ∀ db, I db → Q (q db) ws) :
    Ensures Drawn I W (Prog.select q : Prog δ ω ε π α) Q ws := by
  intro db b w hI hs
  cases hs
  refine ⟨nofun, ?_⟩
  show Q (q db) (ws ++ [])
  rw [List.append_nil]
  exact h db hI

theorem ensures_execute [DecidableEq α] {s : δ → Option (α × List ω)} {Q : α → List ω → Prop}
    {ws : List ω}
    (h : ∀ db a w, I db → s db = some (a, w) → (∀ x ∈ w, W x) ∧ Q a (ws ++ w)) :
    Ensures Drawn I W (Prog.execute s : Prog δ ω ε π α) Q ws :=
  fun db a w hI hs => h db a w hI hs

/-- What is ensured holds of every outcome. -/
theorem Ensures.outcome {apply : ω → δ → δ} (hW : ∀ w db, W w → I db → I (apply w db))
    {p : Prog δ ω ε π α} {Q : α → List ω → Prop} {db : δ} {a : α} {pre ws : List ω}
    (h : Ensures Drawn I W p Q pre) (hI : I db) (ho : Outcome apply Drawn p db a ws) :
    Q a (pre ++ ws) := by
  induction p generalizing db pre ws with
  | ret a' =>
    obtain ⟨rfl, rfl⟩ := ho
    rwa [List.append_nil]
  | fail e => exact ho.elim
  | stmt s k ih =>
    obtain ⟨b, w, ws', hs, rfl, ho⟩ := ho
    obtain ⟨hw, hk⟩ := h db b w hI hs
    rw [← List.append_assoc]
    exact ih b hk (applyAll_induction hW hw hI) ho
  | draw purpose k ih =>
    obtain ⟨u, hu, ho⟩ := ho
    exact ih u (h u hu) hI ho

/-- Every write of an outcome is a `W`. -/
theorem Ensures.writes {apply : ω → δ → δ} (hW : ∀ w db, W w → I db → I (apply w db))
    {p : Prog δ ω ε π α} {Q : α → List ω → Prop} {db : δ} {a : α} {pre ws : List ω}
    (h : Ensures Drawn I W p Q pre) (hI : I db) (ho : Outcome apply Drawn p db a ws) :
    ∀ w ∈ ws, W w := by
  induction p generalizing db pre ws with
  | ret a' =>
    obtain ⟨-, rfl⟩ := ho
    exact List.forall_mem_nil _
  | fail e => exact ho.elim
  | stmt s k ih =>
    obtain ⟨b, w, ws', hs, rfl, ho⟩ := ho
    obtain ⟨hw, hk⟩ := h db b w hI hs
    intro x hx
    rcases List.mem_append.mp hx with hx | hx
    · exact hw x hx
    · exact ih b hk (applyAll_induction hW hw hI) ho x hx
  | draw purpose k ih =>
    obtain ⟨u, hu, ho⟩ := ho
    exact ih u (h u hu) hI ho

/-- What is ensured stays ensured by the next statement. -/
theorem Ensures.advance {apply : ω → δ → δ} [∀ p u, Decidable (Drawn p u)]
    {p p' : Prog δ ω ε π α} {Q : α → List ω → Prop} {db : δ} {ws pre w : List ω}
    {facts : List (δ → Bool)} {u : ℕ} (h : Ensures Drawn I W p Q pre)
    (hI : I (applyAll apply ws db)) (ha : p.advance apply Drawn db ws u = some (p', w, facts)) :
    (∀ x ∈ w, W x) ∧ Ensures Drawn I W p' Q (pre ++ w) := by
  cases p with
  | ret a | fail e => cases ha
  | stmt s k =>
    obtain ⟨⟨b, w⟩, hs, ha⟩ := Option.map_eq_some_iff.mp ha
    cases ha
    exact h _ b w hI hs
  | draw purpose k =>
    simp only [Prog.advance] at ha
    split at ha
    · next hu =>
      cases ha
      rw [List.append_nil]
      exact ⟨nofun, h u hu⟩
    · cases ha

end

/-! ### Programs beside others -/

section

variable (apply : ω → δ → δ) (Drawn) (R : δ → δ → Prop) (I : δ → Prop)
  (S : δ → List ω → List ω → Prop) (E : ε → Prop)

/-- From `db` and the writes `ws` on, while others change the database along `R` and keep
`I`: `S` holds of each statement's database, of the writes before it and of its own; errors
are `E`s; and at the end `Q` holds. -/
def Beside : Prog δ ω ε π α → (δ → α → List ω → Prop) → δ → List ω → Prop
  | .ret a, Q, db, ws => ∀ db', R db db' → I db' → Q db' a ws
  | .fail e, _, _, _ => E e
  | @Prog.stmt _ _ _ _ _ _ _ s k, Q, db, ws => ∀ db', R db db' → I db' → ∀ b w,
      s (applyAll apply ws db') = some (b, w) → S db' ws w ∧ Beside (k b) Q db' (ws ++ w)
  | .draw p k, Q, db, ws => ∀ u, Drawn p u → Beside (k u) Q db ws

variable {apply Drawn R I S E}

/-- Others may go on. -/
theorem Beside.moved (htrans : ∀ a b c : δ, R a b → R b c → R a c) {p : Prog δ ω ε π α}
    {Q : δ → α → List ω → Prop} {db db' : δ} {ws : List ω}
    (h : Beside Drawn apply R I S E p Q db ws) (hR : R db db') :
    Beside Drawn apply R I S E p Q db' ws := by
  induction p with
  | ret a => exact fun db'' hR' hI => h db'' (htrans _ _ _ hR hR') hI
  | fail e => exact h
  | stmt s k _ => exact fun db'' hR' hI => h db'' (htrans _ _ _ hR hR') hI
  | draw purpose k ih => exact fun u hu => ih u (h u hu)

theorem beside_bind (hrefl : ∀ a : δ, R a a) {p : Prog δ ω ε π α}
    {f : α → Prog δ ω ε π β} {Q : δ → β → List ω → Prop} {db : δ} {ws : List ω}
    (h : Beside Drawn apply R I S E p
      (fun db a ws => Beside Drawn apply R I S E (f a) Q db ws) db ws) (hI : I db) :
    Beside Drawn apply R I S E (p.bind f) Q db ws := by
  induction p generalizing db ws with
  | ret a => exact h db (hrefl db) hI
  | fail e => exact h
  | stmt s k ih =>
    intro db' hR hI' b w hs
    obtain ⟨hS, hk⟩ := h db' hR hI' b w hs
    exact ⟨hS, ih b hk hI'⟩
  | draw purpose k ih => exact fun u hu => ih u (h u hu) hI

/-- The next statement, among others. -/
theorem Beside.advance [∀ p u, Decidable (Drawn p u)]
    (htrans : ∀ a b c : δ, R a b → R b c → R a c) {p p' : Prog δ ω ε π α}
    {Q : δ → α → List ω → Prop} {db db' : δ} {ws w : List ω} {facts : List (δ → Bool)} {u : ℕ}
    (h : Beside Drawn apply R I S E p Q db ws) (hR : R db db')
    (hI : I db') (ha : p.advance apply Drawn db' ws u = some (p', w, facts)) :
    (w = [] ∨ S db' ws w) ∧ Beside Drawn apply R I S E p' Q db' (ws ++ w) := by
  cases p with
  | ret a | fail e => cases ha
  | stmt s k =>
    obtain ⟨⟨b, w⟩, hs, ha⟩ := Option.map_eq_some_iff.mp ha
    cases ha
    obtain ⟨hS, hk⟩ := h db' hR hI b w hs
    exact ⟨.inr hS, hk⟩
  | draw purpose k =>
    simp only [Prog.advance] at ha
    split at ha
    · next hu =>
      cases ha
      rw [List.append_nil]
      exact ⟨.inl rfl, (h u hu).moved htrans hR⟩
    · cases ha

end

end Program
