/-
A consumer loses nothing: below the committed offset, every message has been handled or parked.

* `Handled`, `Parked`, `Accounted` — what has become of a message, read off the history;
* `Quiet` — a part of a pass that does not commit;
* `quiet_process`, `quiet_assemble`, `quiet_handleBatch` — what each part accounts for;
* `Below` — everything up to a position is accounted for, which a commit needs;
* `accounted_of_run` — it holds of the committed offsets, after every run.
-/
import SmartFoodOps.Kafka.Consumer

open Interaction Machine

namespace Kafka

variable {E : Type} {h h' : History (@Answer E)} {m : Message} {event : E}

/-! ### What has become of a message -/

def Decoded (h : History (@Answer E)) (m : Message) (event : E) : Prop :=
  ⟨.decode m.value, .ok event⟩ ∈ h

/-- A handler has been called with the event of the message, and has returned. -/
def Handled (h : History (@Answer E)) (m : Message) : Prop :=
  ∃ batch event, ⟨.handle batch, .ok ()⟩ ∈ h ∧ (m, event) ∈ batch ∧ Decoded h m event

/-- The original message has been produced to the dead-letter topic. -/
def Parked (h : History (@Answer E)) (m : Message) : Prop :=
  ∃ error attempts failedAt, ⟨.send (parked m error attempts failedAt), .ok ()⟩ ∈ h

def Accounted (h : History (@Answer E)) (m : Message) : Prop := Handled h m ∨ Parked h m

theorem Accounted.mono (ha : Accounted h m) (hsub : h ⊆ h') : Accounted h' m := by
  rcases ha with ⟨batch, event, hhandle, hmem, hdecoded⟩ | ⟨error, attempts, failedAt, hsend⟩
  · exact .inl ⟨batch, event, hsub hhandle, hmem, hsub hdecoded⟩
  · exact .inr ⟨error, attempts, failedAt, hsub hsend⟩

/-! ### The parts of a pass -/

/-- The program does not commit. -/
abbrev Quiet {α : Type} (p : Pass E α) (Q : α → History (@Answer E) → Prop)
    (h : History (@Answer E)) : Prop :=
  Holds (fun _ o => o ≠ .commit) p Q h

theorem quiet_park {error : Failure} {attempts : ℕ} :
    Quiet (park m error attempts) (fun _ h' => h ⊆ h' ∧ Accounted h' m) h := by
  refine holds_bind.mpr (holds_call nofun fun failedAt => ?_)
  refine holds_bind.mpr (holds_call nofun fun r => ?_)
  cases r with
  | error e => trivial
  | ok u =>
    refine ⟨fun x hx => by simp [hx], .inr ⟨error, attempts, failedAt, ?_⟩⟩
    exact List.mem_cons_self

/-- The attempts end with a call that returns, or with the message parked. -/
theorem quiet_attempt {maxAttempts left : ℕ} (hleft : left ≠ 0) (hdecoded : Decoded h m event) :
    Quiet (attempt maxAttempts m event left) (fun _ h' => h ⊆ h' ∧ Accounted h' m) h := by
  induction left generalizing h with
  | zero => exact absurd rfl hleft
  | succ left ih =>
    refine holds_bind.mpr (holds_call nofun fun r => ?_)
    cases r with
    | ok u =>
      refine ⟨fun x hx => List.mem_cons_of_mem _ hx, .inl ⟨[(m, event)], event, ?_, ?_, ?_⟩⟩
      · exact List.mem_cons_self
      · exact List.mem_singleton_self _
      · exact List.mem_cons_of_mem _ hdecoded
    | error error =>
      have hsub : h ⊆ ⟨.handle [(m, event)], .error error⟩ :: h :=
        fun x hx => List.mem_cons_of_mem _ hx
      show Quiet (if left = 0 then _ else _) _ _
      split
      · exact quiet_park.mono fun _ h' hh => ⟨fun x hx => hh.1 (hsub hx), hh.2⟩
      · next hzero =>
        exact (ih hzero (hsub hdecoded)).mono fun _ h' hh => ⟨fun x hx => hh.1 (hsub hx), hh.2⟩

theorem quiet_process {maxAttempts : ℕ} (hpos : maxAttempts ≠ 0) :
    Quiet (process maxAttempts m : Pass E Unit) (fun _ h' => h ⊆ h' ∧ Accounted h' m) h := by
  refine holds_bind.mpr (holds_call nofun fun r => ?_)
  have hsub : h ⊆ ⟨.decode m.value, r⟩ :: h := fun x hx => List.mem_cons_of_mem _ hx
  rcases r with (error | error) | event
  · exact quiet_park.mono fun _ h' hh => ⟨fun x hx => hh.1 (hsub hx), hh.2⟩
  · trivial
  · exact (quiet_attempt hpos List.mem_cons_self).mono fun _ h' hh =>
      ⟨fun x hx => hh.1 (hsub hx), hh.2⟩

/-- A message is in the batch, with what it has been decoded to, or it has been parked. -/
theorem quiet_assemble {ms : List Message} :
    Quiet (assemble ms : Pass E (List (Message × E))) (fun batch h' => h ⊆ h' ∧
      (∀ x ∈ batch, Decoded h' x.1 x.2) ∧
        ∀ m ∈ ms, (∃ event, (m, event) ∈ batch) ∨ Accounted h' m) h := by
  induction ms generalizing h with
  | nil => exact ⟨fun _ hx => hx, List.forall_mem_nil _, List.forall_mem_nil _⟩
  | cons m ms ih =>
    refine holds_bind.mpr (holds_call nofun fun r => ?_)
    have hsub : h ⊆ ⟨.decode m.value, r⟩ :: h := fun x hx => List.mem_cons_of_mem _ hx
    rcases r with (error | error) | event
    · refine holds_bind.mpr (quiet_park.mono fun _ h₁ hh₁ => ih.mono fun batch h₂ hh₂ => ?_)
      obtain ⟨hsub₂, hdecoded, hms⟩ := hh₂
      refine ⟨fun x hx => hsub₂ (hh₁.1 (hsub hx)), hdecoded, List.forall_mem_cons.mpr ⟨?_, hms⟩⟩
      exact .inr (hh₁.2.mono hsub₂)
    · trivial
    · refine holds_bind.mpr (ih.mono fun batch h₂ hh₂ => ?_)
      obtain ⟨hsub₂, hdecoded, hms⟩ := hh₂
      refine ⟨fun x hx => hsub₂ (hsub hx), List.forall_mem_cons.mpr ⟨?_, hdecoded⟩,
        List.forall_mem_cons.mpr ⟨.inl ⟨event, List.mem_cons_self⟩, fun m' hm' => ?_⟩⟩
      · exact hsub₂ List.mem_cons_self
      · exact (hms m' hm').imp_left fun ⟨event', hmem⟩ => ⟨event', List.mem_cons_of_mem _ hmem⟩

theorem quiet_singles {maxAttempts : ℕ} (hpos : maxAttempts ≠ 0) {batch : List (Message × E)}
    (hdecoded : ∀ x ∈ batch, Decoded h x.1 x.2) :
    Quiet (singles maxAttempts batch)
      (fun _ h' => h ⊆ h' ∧ ∀ x ∈ batch, Accounted h' x.1) h := by
  induction batch generalizing h with
  | nil => exact ⟨fun _ hx => hx, List.forall_mem_nil _⟩
  | cons x batch ih =>
    obtain ⟨hx, hbatch⟩ := List.forall_mem_cons.mp hdecoded
    refine holds_bind.mpr ((quiet_attempt hpos hx).mono fun _ h₁ hh₁ => ?_)
    refine (ih fun y hy => hh₁.1 (hbatch y hy)).mono fun _ h₂ hh₂ => ?_
    exact ⟨fun y hy => hh₂.1 (hh₁.1 hy), List.forall_mem_cons.mpr ⟨hh₁.2.mono hh₂.1, hh₂.2⟩⟩

theorem quiet_handleBatch {maxAttempts : ℕ} (hpos : maxAttempts ≠ 0) {batch : List (Message × E)}
    (hdecoded : ∀ x ∈ batch, Decoded h x.1 x.2) :
    Quiet (handleBatch maxAttempts batch)
      (fun _ h' => h ⊆ h' ∧ ∀ x ∈ batch, Accounted h' x.1) h := by
  refine holds_bind.mpr (holds_call nofun fun r => ?_)
  have hsub : h ⊆ ⟨.handle batch, r⟩ :: h := fun x hx => List.mem_cons_of_mem _ hx
  cases r with
  | ok u =>
    refine ⟨hsub, fun x hx => .inl ⟨batch, x.2, ?_, hx, hsub (hdecoded x hx)⟩⟩
    exact List.mem_cons_self
  | error e =>
    refine (quiet_singles hpos fun x hx => hsub (hdecoded x hx)).mono fun _ h' hh => ?_
    exact ⟨fun x hx => hh.1 (hsub hx), hh.2⟩

/-! ### Positions -/

variable {content : Content} {position position' : Partition → ℕ}

/-- Everything before the position is accounted for. -/
def Below (content : Content) (position : Partition → ℕ) (h : History (@Answer E)) : Prop :=
  ∀ p i, i < position p → ∃ m, content.message p i = some m ∧ Accounted h m

theorem Below.mono (hb : Below content position h) (hsub : h ⊆ h') : Below content position h' := by
  intro p i hi
  obtain ⟨m, hm, ha⟩ := hb p i hi
  exact ⟨m, hm, ha.mono hsub⟩

theorem Below.anti (hb : Below content position h) (hle : ∀ p, position' p ≤ position p) :
    Below content position' h :=
  fun p i hi => hb p i (Nat.lt_of_lt_of_le hi (hle p))

/-- A commit needs everything before the position to be accounted for. -/
abbrev Due (content : Content) (position : Partition → ℕ) (h : History (@Answer E)) (o : Op E) :
    Prop :=
  o = .commit → Below content position h

/-- What a pass owes while it works. -/
abbrev Owes (content : Content) (position : Partition → ℕ) (p : Pass E Unit)
    (h : History (@Answer E)) : Prop :=
  Holds (Due content position) p (fun _ h' => Below content position h') h

theorem Holds.quiet {α : Type} {p : Pass E α} {Q : α → History (@Answer E) → Prop}
    (hp : Quiet p Q h) : Holds (Due content position) p Q h :=
  hp.weaken fun _ _ hne he => absurd he hne

theorem owes_commit (hb : Below content position h) :
    Owes content position (commit : Pass E Unit) h := by
  refine holds_bind.mpr (holds_call (fun _ => hb) fun r => ?_)
  cases r with
  | done => exact hb.mono fun x hx => List.mem_cons_of_mem _ hx
  | failed applied error => trivial

/-- What has been handed out is new, or was accounted for before. -/
structure Handed (content : Content) (position position' : Partition → ℕ) (ms : List Message) :
    Prop where
  le : ∀ p, position p ≤ position' p
  mem : ∀ p i, position p ≤ i → i < position' p → ∃ m ∈ ms, content.message p i = some m

theorem handed_of_take {records : List (Partition × ℕ)} {ms : List Message}
    (ht : take content position records = some (ms, position')) :
    Handed content position position' ms := by
  induction records generalizing position ms with
  | nil =>
    cases ht
    exact ⟨fun _ => Nat.le_refl _, fun p i hlow hhigh => absurd hhigh (Nat.not_lt.mpr hlow)⟩
  | cons record records ih =>
    obtain ⟨p, n⟩ := record
    rw [take] at ht
    split at ht
    · next hlength =>
      obtain ⟨⟨rest, position''⟩, hrest, ht⟩ := Option.bind_eq_some_iff.mp ht
      cases ht
      have hhanded := ih hrest
      refine ⟨fun q => ?_, fun q i hlow hhigh => ?_⟩
      · have hle := hhanded.le q
        by_cases hq : q = p
        · rw [hq, Function.update_self] at hle
          rw [hq]
          omega
        · rwa [Function.update_of_ne hq] at hle
      · by_cases hnew : Function.update position p (position p + n) q ≤ i
        · obtain ⟨m, hm, hmessage⟩ := hhanded.mem q i hnew hhigh
          exact ⟨m, List.mem_append_right _ hm, hmessage⟩
        · -- one of the messages of this partition
          have hq : q = p := by
            by_contra hq
            rw [Function.update_of_ne hq] at hnew
            exact hnew hlow
          rw [hq] at hlow ⊢
          rw [hq, Function.update_self] at hnew
          have hi : i < (content p).length := by omega
          have hmessage : content.message p i = some ⟨(content p)[i], p, i⟩ := by
            unfold Content.message
            rw [List.getElem?_eq_getElem hi]
            rfl
          refine ⟨_, List.mem_append_left _ (List.mem_filterMap.mpr ⟨i, ?_, hmessage⟩), hmessage⟩
          rw [List.mem_range'_1]
          omega
    · cases ht

/-- **A pass commits only what it has accounted for.** -/
theorem owes_body {c : Config} {ms : List Message} {pass : Pass E Unit}
    (hbody : c.body ms = some pass) (hb : Below content position h)
    (hhanded : Handed content position position' ms) : Owes content position' pass h := by
  have hpos : c.maxAttempts ≠ 0 := Nat.pos_iff_ne_zero.mp c.attempts_pos
  -- once the messages are accounted for
  have hcommit : ∀ h' : History (@Answer E), h ⊆ h' → (∀ m ∈ ms, Accounted h' m) →
      Below content position' h' := by
    intro h' hsub hms p i hi
    by_cases hlow : position p ≤ i
    · obtain ⟨m, hm, hmessage⟩ := hhanded.mem p i hlow hi
      exact ⟨m, hmessage, hms m hm⟩
    · exact hb.mono hsub p i (Nat.lt_of_not_le hlow)
  unfold Config.body at hbody
  split at hbody
  · next m _ =>
    cases hbody
    refine holds_bind.mpr (Holds.mono (Holds.quiet (quiet_process hpos)) fun _ h' hh => ?_)
    refine owes_commit (hcommit h' hh.1 fun m' hm' => ?_)
    rw [List.mem_singleton.mp hm']
    exact hh.2
  · cases hbody
  · cases hbody
  · cases hbody
    refine holds_bind.mpr (Holds.mono (Holds.quiet quiet_assemble) fun batch h₁ hh₁ => ?_)
    obtain ⟨hsub₁, hdecoded, hms⟩ := hh₁
    split
    · next hempty =>
      refine owes_commit (hcommit h₁ hsub₁ fun m hm => (hms m hm).resolve_left ?_)
      rintro ⟨event, hmem⟩
      rw [hempty] at hmem
      cases hmem
    · refine holds_bind.mpr (Holds.mono (Holds.quiet (quiet_handleBatch hpos hdecoded))
        fun _ h₂ hh₂ => ?_)
      refine owes_commit (hcommit h₂ (fun x hx => hh₂.1 (hsub₁ hx)) fun m hm => ?_)
      rcases hms m hm with ⟨event, hmem⟩ | ha
      · exact hh₂.2 _ hmem
      · exact ha.mono hh₂.1

/-! ### Runs -/

/-- What holds of a state. -/
structure Lossless (content : Content) (s : System E) : Prop where
  committed : Below content s.committed s.history
  le : ∀ p, s.committed p ≤ s.position p
  phase : match s.phase with
    | .down => True
    | .polling => Below content s.position s.history
    | .working p => Owes content s.position p s.history

variable [DecidableEq E] {c : Config} {s t : System E} {l : Label E}

theorem lossless_answer (hs : Lossless content s) {x : Sigma (@Answer E)} {p rest : Pass E Unit}
    (hphase : s.phase = .working p) (hx : p.answer x = some rest) :
    Lossless content { s with
      committed := if commits x then s.position else s.committed
      history := x :: s.history
      phase := .working rest } := by
  have hp := hs.phase
  rw [hphase] at hp
  obtain ⟨hdue, hrest⟩ := Holds.answer hp hx
  have hsub : s.history ⊆ x :: s.history := fun y hy => List.mem_cons_of_mem x hy
  refine ⟨?_, ?_, hrest⟩
  · show Below content (if commits x then s.position else s.committed) (x :: s.history)
    split
    · next hcommits =>
      -- only a commit moves the offsets
      have hop : x.1 = .commit := by
        obtain ⟨o, r⟩ := x
        cases o <;> first | rfl | cases hcommits
      exact (hdue hop).mono hsub
    · exact hs.committed.mono hsub
  · intro q
    show (if commits x then s.position else s.committed) q ≤ s.position q
    split
    · exact Nat.le_refl _
    · exact hs.le q

theorem lossless_step (hs : Lossless content s) (h : step c content s l = some t) :
    Lossless content t := by
  cases l with
  | join =>
    simp only [step] at h
    split at h
    · cases h
      exact ⟨hs.committed, fun p => Nat.le_refl _, hs.committed⟩
    · cases h
  | poll records =>
    simp only [step] at h
    split at h
    · next hphase =>
      obtain ⟨⟨ms, position⟩, htake, h⟩ := Option.bind_eq_some_iff.mp h
      obtain ⟨pass, hpass, h⟩ := Option.bind_eq_some_iff.mp h
      cases h
      have hb := hs.phase
      rw [hphase] at hb
      have hhanded := handed_of_take htake
      exact ⟨hs.committed, fun p => Nat.le_trans (hs.le p) (hhanded.le p), owes_body hpass hb hhanded⟩
    · cases h
  | answer x =>
    simp only [step] at h
    split at h
    · next p hphase =>
      obtain ⟨rest, hx, h⟩ := Option.bind_eq_some_iff.mp h
      cases h
      exact lossless_answer hs hphase hx
    · cases h
  | next =>
    simp only [step] at h
    split at h
    · next hphase =>
      cases h
      have hp := hs.phase
      rw [hphase] at hp
      exact ⟨hs.committed, hs.le, hp⟩
    · cases h
      exact ⟨hs.committed, hs.le, trivial⟩
    · cases h
  | crash =>
    cases h
    exact ⟨hs.committed, hs.le, trivial⟩
  | rebalance p =>
    cases h
    have hle : ∀ q, Function.update s.position p (s.committed p) q ≤ s.position q := by
      intro q
      by_cases hq : q = p
      · rw [hq, Function.update_self]
        exact hs.le p
      · rw [Function.update_of_ne hq]
    refine ⟨hs.committed, fun q => ?_, ?_⟩
    · show s.committed q ≤ Function.update s.position p (s.committed p) q
      by_cases hq : q = p
      · rw [hq, Function.update_self]
      · rw [Function.update_of_ne hq]
        exact hs.le q
    · have hp := hs.phase
      show match s.phase with
        | .down => True
        | .polling => Below content (Function.update s.position p (s.committed p)) s.history
        | .working pass => Owes content (Function.update s.position p (s.committed p)) pass s.history
      cases hphase : s.phase with
      | down => trivial
      | polling =>
        rw [hphase] at hp
        exact hp.anti hle
      | working pass =>
        rw [hphase] at hp
        exact Holds.mono (hp.weaken fun _ _ hdue ho => (hdue ho).anti hle) fun _ _ hb => hb.anti hle

/-- **Whatever fails or crashes, every message before the committed offset has been passed to a
handler that has returned, or is parked.** -/
theorem accounted_of_run {ls : List (Label E)} (h : Run (step c content) Always .start ls s) :
    ∀ p i, i < s.committed p →
      ∃ m, content.message p i = some m ∧ (Handled s.history m ∨ Parked s.history m) := by
  have hstart : Lossless content (.start : System E) :=
    ⟨fun _ _ hi => absurd hi (Nat.not_lt_zero _), fun _ => Nat.le_refl _, trivial⟩
  have hs : Lossless content s := h.invariant (I := Lossless content) hstart
    fun _ _ _ hI _ hs => lossless_step hI hs
  exact hs.committed

/-! ### A poll with a poison message -/

def orders : Partition := ⟨"order.events", 0⟩

def twoBodies : Content := fun p =>
  if p = orders then [⟨some [1], none, []⟩, ⟨some [2], none, []⟩] else []

def message (i : ℕ) (value : UInt8) : Message := ⟨⟨some [value], none, []⟩, orders, i⟩

/-- The second message cannot be decoded and is parked; the first one is handled. -/
def poisoned : List (Label ℕ) :=
  [.join, .poll [(orders, 2)], .answer ⟨.decode (some [1]), .ok 1⟩,
    .answer ⟨.decode (some [2]), .error (.serde ⟨"SerdeError", "bad bytes"⟩)⟩,
    .answer ⟨.clock, "noon"⟩,
    .answer ⟨.send (parked (message 1 2) ⟨"SerdeError", "bad bytes"⟩ 0 "noon"), .ok ()⟩,
    .answer ⟨.handle [(message 0 1, 1)], .ok ()⟩, .answer ⟨.commit, .done⟩, .next]

def batching : Config := ⟨.batches, 5, by decide⟩

theorem accounted_of_poisoned : ∃ s : System ℕ,
    Run (step batching twoBodies) Always .start poisoned s ∧ s.committed orders = 2 ∧
      ∀ p i, i < s.committed p → ∃ m, twoBodies.message p i = some m ∧
        (Handled s.history m ∨ Parked s.history m) := by
  obtain ⟨s, hrun, hp⟩ : ∃ s : System ℕ, Run (step batching twoBodies) Always .start poisoned s ∧
      decide (s.committed orders = 2) = true :=
    exists_run_of_execOk (by decide +kernel)
  exact ⟨s, hrun, of_decide_eq_true hp, accounted_of_run hrun⟩

end Kafka
