/-
Tasks: programs that keep a memory, and whose operations may raise.

* `Task` — what is raised leaves the memory as it is; `raise`, `tryCatch`, `tryFinally`;
* `Wp` — whatever is answered, the result, the memory and the history satisfy a postcondition;
* `Allows` — and every operation is allowed by what was answered before it;
* `wp_bind`, `wp_tryCatch`, `wp_tryFinally`, `wp_await`, `Wp.mono` — their rules;
* `Wp.bind`, `Wp.tryFinally` — the same with a condition in between.
-/
import SmartFoodOps.Lib.Interaction

namespace Interaction

/-- A program with a memory `μ` that returns or raises. -/
def Task {ω : Type} (ρ : ω → Type) (μ ε α : Type) : Type := μ → Prog ρ Empty (Except ε α × μ)

namespace Task

variable {ω μ ε α β : Type} {ρ : ω → Type}

def bind (x : Task ρ μ ε α) (f : α → Task ρ μ ε β) : Task ρ μ ε β := fun m =>
  (x m).bind fun r => match r with
    | (.ok a, m) => f a m
    | (.error e, m) => .ret (.error e, m)

instance : Monad (Task ρ μ ε) where
  pure a := fun m => .ret (.ok a, m)
  bind := bind

def raise (e : ε) : Task ρ μ ε α := fun m => .ret (.error e, m)

def get : Task ρ μ ε μ := fun m => .ret (.ok m, m)

def modify (f : μ → μ) : Task ρ μ ε Unit := fun m => .ret (.ok (), f m)

/-- What is raised is handled. -/
def tryCatch (x : Task ρ μ ε α) (handler : ε → Task ρ μ ε α) : Task ρ μ ε α := fun m =>
  (x m).bind fun r => match r with
    | (.ok a, m) => .ret (.ok a, m)
    | (.error e, m) => handler e m

/-- `last` runs in any case; what it raises takes the place of the result. -/
def tryFinally (x : Task ρ μ ε α) (last : Task ρ μ ε Unit) : Task ρ μ ε α := fun m =>
  (x m).bind fun r => (last r.2).bind fun r' => match r' with
    | (.ok _, m) => .ret (r.1, m)
    | (.error e, m) => .ret (.error e, m)

/-- One operation, whose answer may be raised. -/
def await (o : ω) (answer : ρ o → Except ε α) : Task ρ μ ε α := fun m =>
  .op o fun r => .ret (answer r, m)

/-! ### Postconditions -/

/-- Every operation is an `S`, whatever is answered, and `Q` holds at the end. -/
def Allows (S : History ρ → ω → Prop) (x : Task ρ μ ε α)
    (Q : Except ε α → μ → History ρ → Prop) (m : μ) (h : History ρ) : Prop :=
  Holds S (x m) (fun r => Q r.1 r.2) h

/-- Whatever is answered, `Q` holds at the end. -/
def Wp (x : Task ρ μ ε α) (Q : Except ε α → μ → History ρ → Prop) (m : μ) (h : History ρ) : Prop :=
  Holds (fun _ _ => True) (x m) (fun r => Q r.1 r.2) h

variable {S : History ρ → ω → Prop} {x : Task ρ μ ε α} {f : α → Task ρ μ ε β}
  {Q Q' : Except ε α → μ → History ρ → Prop} {m : μ} {h : History ρ}

theorem allows_get {Q : Except ε μ → μ → History ρ → Prop} :
    (get : Task ρ μ ε μ).Allows S Q m h ↔ Q (.ok m) m h := Iff.rfl

theorem wp_pure {a : α} : (pure a : Task ρ μ ε α).Wp Q m h ↔ Q (.ok a) m h := Iff.rfl

theorem wp_raise {e : ε} : (raise e : Task ρ μ ε α).Wp Q m h ↔ Q (.error e) m h := Iff.rfl

theorem wp_get {Q : Except ε μ → μ → History ρ → Prop} :
    (get : Task ρ μ ε μ).Wp Q m h ↔ Q (.ok m) m h := Iff.rfl

theorem wp_modify {g : μ → μ} {Q : Except ε Unit → μ → History ρ → Prop} :
    (modify g : Task ρ μ ε Unit).Wp Q m h ↔ Q (.ok ()) (g m) h := Iff.rfl

theorem Allows.mono (hx : x.Allows S Q m h) (hQ : ∀ r m h, Q r m h → Q' r m h) :
    x.Allows S Q' m h :=
  Holds.mono hx fun r h' => hQ r.1 r.2 h'

theorem Wp.mono (hx : x.Wp Q m h) (hQ : ∀ r m h, Q r m h → Q' r m h) : x.Wp Q' m h :=
  Allows.mono hx hQ

theorem wp_suffix (x : Task ρ μ ε α) : x.Wp (fun _ _ h' => h <:+ h') m h := holds_suffix (x m)

theorem Wp.and (hx : x.Wp Q m h) (hx' : x.Wp Q' m h) :
    x.Wp (fun r m h => Q r m h ∧ Q' r m h) m h :=
  Holds.and hx hx'

/-- **Sequence.** -/
theorem allows_bind {Q : Except ε β → μ → History ρ → Prop} : (x >>= f).Allows S Q m h ↔
    x.Allows S (fun r m h => match r with
      | .ok a => (f a).Allows S Q m h
      | .error e => Q (.error e) m h) m h := by
  refine holds_bind.trans (holds_congr ?_)
  rintro ⟨_ | _, m⟩ h
  · exact Iff.rfl
  · exact Iff.rfl

theorem wp_bind {Q : Except ε β → μ → History ρ → Prop} : (x >>= f).Wp Q m h ↔
    x.Wp (fun r m h => match r with
      | .ok a => (f a).Wp Q m h
      | .error e => Q (.error e) m h) m h :=
  allows_bind

/-- **Handling.** -/
theorem allows_tryCatch {handler : ε → Task ρ μ ε α} : (x.tryCatch handler).Allows S Q m h ↔
    x.Allows S (fun r m h => match r with
      | .ok a => Q (.ok a) m h
      | .error e => (handler e).Allows S Q m h) m h := by
  refine holds_bind.trans (holds_congr ?_)
  rintro ⟨_ | _, m⟩ h
  · exact Iff.rfl
  · exact Iff.rfl

theorem wp_tryCatch {handler : ε → Task ρ μ ε α} : (x.tryCatch handler).Wp Q m h ↔
    x.Wp (fun r m h => match r with
      | .ok a => Q (.ok a) m h
      | .error e => (handler e).Wp Q m h) m h :=
  allows_tryCatch

/-- What is run first, alone. -/
theorem Allows.of_bind {Q : Except ε β → μ → History ρ → Prop} (hx : (x >>= f).Allows S Q m h) :
    x.Allows S (fun _ _ _ => True) m h :=
  (allows_bind.mp hx).mono fun _ _ _ _ => trivial

theorem Allows.of_tryCatch {handler : ε → Task ρ μ ε α} (hx : (x.tryCatch handler).Allows S Q m h) :
    x.Allows S (fun _ _ _ => True) m h :=
  (allows_tryCatch.mp hx).mono fun _ _ _ _ => trivial

/-- **In any case.** -/
theorem wp_tryFinally {last : Task ρ μ ε Unit} : (x.tryFinally last).Wp Q m h ↔
    x.Wp (fun r m h => last.Wp (fun r' m h => match r' with
      | .ok _ => Q r m h
      | .error e => Q (.error e) m h) m h) m h := by
  refine holds_bind.trans (holds_congr fun r h => holds_bind.trans (holds_congr ?_))
  rintro ⟨_ | _, m⟩ h
  · exact Iff.rfl
  · exact Iff.rfl

/-- **Sequence**, from what is known in between. -/
theorem Allows.bind {R : Except ε α → μ → History ρ → Prop} {Q : Except ε β → μ → History ρ → Prop}
    (hx : x.Allows S R m h) (hok : ∀ a m h, R (.ok a) m h → (f a).Allows S Q m h)
    (herror : ∀ e m h, R (.error e) m h → Q (.error e) m h) : (x >>= f).Allows S Q m h := by
  refine allows_bind.mpr (hx.mono ?_)
  rintro (e | a) m h hr
  · exact herror e m h hr
  · exact hok a m h hr

/-- **Sequence** of what is allowed in any case. -/
theorem Allows.seq (hx : x.Allows S (fun _ _ _ => True) m h)
    (hf : ∀ a m h, (f a).Allows S (fun _ _ _ => True) m h) :
    (x >>= f).Allows S (fun _ _ _ => True) m h :=
  hx.bind (fun a m h _ => hf a m h) fun _ _ _ _ => trivial

theorem Wp.bind {R : Except ε α → μ → History ρ → Prop} {Q : Except ε β → μ → History ρ → Prop}
    (hx : x.Wp R m h) (hok : ∀ a m h, R (.ok a) m h → (f a).Wp Q m h)
    (herror : ∀ e m h, R (.error e) m h → Q (.error e) m h) : (x >>= f).Wp Q m h :=
  Allows.bind hx hok herror

/-- **In any case**, from what is known in between. -/
theorem Wp.tryFinally {R : Except ε α → μ → History ρ → Prop} {last : Task ρ μ ε Unit}
    (hx : x.Wp R m h) (hlast : ∀ r m h, R r m h → last.Wp (fun r' m h => match r' with
      | .ok _ => Q r m h
      | .error e => Q (.error e) m h) m h) : (x.tryFinally last).Wp Q m h :=
  wp_tryFinally.mpr (hx.mono hlast)

/-- **One operation.** -/
theorem allows_await {o : ω} {answer : ρ o → Except ε α} :
    (await o answer : Task ρ μ ε α).Allows S Q m h ↔
      S h o ∧ ∀ r, Q (answer r) m (⟨o, r⟩ :: h) :=
  Iff.rfl

theorem wp_await {o : ω} {answer : ρ o → Except ε α} :
    (await o answer : Task ρ μ ε α).Wp Q m h ↔ ∀ r, Q (answer r) m (⟨o, r⟩ :: h) := by
  constructor
  · exact fun hx r => hx.2 r
  · exact fun hx => ⟨trivial, hx⟩

end Task

end Interaction
