/-
Programs that talk to the outside: operations, and what is answered to them.

* `Prog` — a program as the tree of its operations and of their answers;
* `History` — the operations that have been answered, newest first;
* `Holds` — whatever is answered, every operation is allowed by the history so far, and the
  result satisfies a postcondition (`holds_bind`, `Holds.mono`);
* `Prog.answer`, `Holds.answer` — one operation is answered;
* `Ends`, `Holds.of_ends` — the histories of a program that has ended; `runWith` gives one.

An operation that may raise has its exception among the answers; `fail` is an exception that
the program does not catch.
-/
import Mathlib.Data.List.Basic
import Mathlib.Data.Sigma.Basic

namespace Interaction

/-- A program with operations `ω`, answers `ρ`, and errors `ε`. -/
inductive Prog {ω : Type} (ρ : ω → Type) (ε α : Type) : Type
  | ret (a : α)
  | fail (e : ε)
  | op (o : ω) (k : ρ o → Prog ρ ε α)

variable {ω ε α β : Type} {ρ : ω → Type}

namespace Prog

def bind : Prog ρ ε α → (α → Prog ρ ε β) → Prog ρ ε β
  | ret a, f => f a
  | fail e, _ => .fail e
  | op o k, f => .op o fun r => (k r).bind f

instance : Monad (Prog ρ ε) where
  pure := .ret
  bind := bind

/-- One operation. -/
def call (o : ω) : Prog ρ ε (ρ o) := .op o .ret

/-- The operation that is due is answered. -/
def answer [DecidableEq ω] : Prog ρ ε α → Sigma ρ → Option (Prog ρ ε α)
  | op o k, x => if h : x.1 = o then some (k (h ▸ x.2)) else none
  | _, _ => none

end Prog

abbrev History (ρ : ω → Type) := List (Sigma ρ)

/-- Whatever is answered, every operation is an `S`, and at the end `Q` holds. -/
def Holds (S : History ρ → ω → Prop) : Prog ρ ε α → (α → History ρ → Prop) → History ρ → Prop
  | .ret a, Q, h => Q a h
  | .fail _, _, _ => True
  | .op o k, Q, h => S h o ∧ ∀ r, Holds S (k r) Q (⟨o, r⟩ :: h)

variable {S S' : History ρ → ω → Prop} {h : History ρ}

theorem holds_bind {p : Prog ρ ε α} {f : α → Prog ρ ε β} {Q : β → History ρ → Prop} :
    Holds S (p >>= f) Q h ↔ Holds S p (fun a h' => Holds S (f a) Q h') h := by
  show Holds S (p.bind f) Q h ↔ _
  induction p generalizing h with
  | ret a => exact Iff.rfl
  | fail e => exact Iff.rfl
  | op o k ih => exact and_congr_right fun _ => forall_congr' fun r => ih r

theorem Holds.mono {p : Prog ρ ε α} {Q Q' : α → History ρ → Prop} (hp : Holds S p Q h)
    (hQ : ∀ a h', Q a h' → Q' a h') : Holds S p Q' h := by
  induction p generalizing h with
  | ret a => exact hQ a h hp
  | fail e => trivial
  | op o k ih => exact ⟨hp.1, fun r => ih r (hp.2 r)⟩

theorem Holds.and {p : Prog ρ ε α} {Q Q' : α → History ρ → Prop} (hp : Holds S p Q h)
    (hp' : Holds S p Q' h) : Holds S p (fun a h => Q a h ∧ Q' a h) h := by
  induction p generalizing h with
  | ret a => exact ⟨hp, hp'⟩
  | fail e => trivial
  | op o k ih => exact ⟨hp.1, fun r => ih r (hp.2 r) (hp'.2 r)⟩

/-- What has been answered stays so. -/
theorem holds_suffix (p : Prog ρ ε α) :
    Holds (fun _ _ => True) p (fun _ h' => h <:+ h') h := by
  induction p generalizing h with
  | ret a => exact List.suffix_refl h
  | fail e => trivial
  | op o k ih =>
    refine ⟨trivial, fun r => (ih r).mono fun a h' hs => ?_⟩
    exact (List.suffix_cons _ h).trans hs

theorem holds_congr {p : Prog ρ ε α} {Q Q' : α → History ρ → Prop} (hQ : ∀ a h', Q a h' ↔ Q' a h') :
    Holds S p Q h ↔ Holds S p Q' h :=
  ⟨fun hp => hp.mono fun a h' => (hQ a h').mp, fun hp => hp.mono fun a h' => (hQ a h').mpr⟩

/-- More operations are allowed. -/
theorem Holds.weaken {p : Prog ρ ε α} {Q : α → History ρ → Prop} (hp : Holds S p Q h)
    (hS : ∀ h o, S h o → S' h o) : Holds S' p Q h := by
  induction p generalizing h with
  | ret a => exact hp
  | fail e => trivial
  | op o k ih => exact ⟨hS h o hp.1, fun r => ih r (hp.2 r)⟩

theorem holds_call {o : ω} {Q : ρ o → History ρ → Prop} (hS : S h o)
    (hQ : ∀ r, Q r (⟨o, r⟩ :: h)) : Holds S (Prog.call o : Prog ρ ε (ρ o)) Q h :=
  ⟨hS, hQ⟩

/-- **The operation that is answered was allowed, and the rest of the program goes on.** -/
theorem Holds.answer [DecidableEq ω] {p p' : Prog ρ ε α} {Q : α → History ρ → Prop} {x : Sigma ρ}
    (hp : Holds S p Q h) (hx : p.answer x = some p') : S h x.1 ∧ Holds S p' Q (x :: h) := by
  cases p with
  | ret a | fail e => cases hx
  | op o k =>
    obtain ⟨o', r⟩ := x
    by_cases ho : o' = o
    · obtain rfl := ho
      rw [Prog.answer, dif_pos rfl] at hx
      cases hx
      exact ⟨hp.1, hp.2 r⟩
    · rw [Prog.answer, dif_neg ho] at hx
      cases hx

/-! ### Programs that have ended -/

/-- From the history `h` the program ends with `a` and the history `h'`. -/
inductive Ends : Prog ρ ε α → History ρ → α → History ρ → Prop
  | ret (a : α) (h : History ρ) : Ends (.ret a) h a h
  | op (o : ω) (k : ρ o → Prog ρ ε α) (r : ρ o) {h h' : History ρ} {a : α} :
      Ends (k r) (⟨o, r⟩ :: h) a h' → Ends (.op o k) h a h'

/-- **However the program ends, its postcondition holds.** -/
theorem Holds.of_ends {p : Prog ρ ε α} {Q : α → History ρ → Prop} {a : α} {h' : History ρ}
    (he : Ends p h a h') (hp : Holds S p Q h) : Q a h' := by
  induction he with
  | ret a h => exact hp
  | op o k r _ ih => exact ih (hp.2 r)

/-- The run in which `respond` answers, for a program that cannot fail. -/
def runWith (respond : History ρ → (o : ω) → ρ o) : Prog ρ Empty α → History ρ → α × History ρ
  | .ret a, h => (a, h)
  | .op o k, h => runWith respond (k (respond h o)) (⟨o, respond h o⟩ :: h)

/-- Everything in the history of such a run is one of its answers. -/
theorem mem_runWith (respond : History ρ → (o : ω) → ρ o) {p : Prog ρ Empty α} {x : Sigma ρ}
    (hx : x ∈ (runWith respond p h).2) : x ∈ h ∨ ∃ h', x.2 = respond h' x.1 := by
  induction p generalizing h with
  | ret a => exact .inl hx
  | fail e => exact e.elim
  | op o k ih =>
    rcases ih _ hx with hx | hx
    · rcases List.mem_cons.mp hx with rfl | hx
      · exact .inr ⟨h, rfl⟩
      · exact .inl hx
    · exact .inr hx

theorem ends_runWith (respond : History ρ → (o : ω) → ρ o) {p : Prog ρ Empty α} :
    Ends p h (runWith respond p h).1 (runWith respond p h).2 := by
  induction p generalizing h with
  | ret a => exact .ret a h
  | fail e => exact e.elim
  | op o k ih => exact .op o k _ (ih _)

end Interaction
