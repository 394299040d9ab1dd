/-
From a committed row to a handled event: the outbox, its topic and a consumer group, end to end.

* `topicOf` — the topic that the poller has written;
* `System`, `step` — the two ends, one step of either at a time;
* `grows_append`, `Lossless.grow` — what the consumer owes is not upset by what is yet to be sent;
* `Genuine` — handlers are called with messages of the topic only;
* `consumes`, `exists_caught_up` — with nothing failing, the group gets to the end of its partitions;
* `reliable_of_run` — no event is lost on the way, none is made up, and each can still be delivered.
-/
import SmartFoodOps.Kafka.Delivery
import SmartFoodOps.Outbox.Order

set_option linter.unusedSectionVars false

open Interaction Machine

namespace Kafka.Pipeline

variable {π τ E : Type} [DecidableEq τ]

/-! ### The topic -/

/-- Where a row goes, by its key, and as which bytes. -/
structure Route (π : Type) where
  partition : Outbox.Row π → Partition
  body : Outbox.Row π → Body

def topicOf (r : Route π) (wire : List (Outbox.Row π)) : Content :=
  fun p => (wire.filter fun row => r.partition row = p).map r.body

/-! ### The system -/

structure System (π τ E : Type) where
  producer : Outbox.World π τ
  consumer : Kafka.System E

def System.start : System π τ E := ⟨.init, .start⟩

inductive Label (π τ E : Type)
  | produce (l : Outbox.Label π τ)
  | consume (l : Kafka.Label E)

def step [DecidableEq E] (batchSize : ℕ) (c : Config) (r : Route π) (s : System π τ E) :
    Label π τ E → Option (System π τ E)
  | .produce l => (Outbox.step batchSize s.producer l).map fun w => { s with producer := w }
  | .consume l =>
    (Kafka.step c (topicOf r s.producer.wire) s.consumer l).map fun k => { s with consumer := k }

/-! ### What a growing topic keeps -/

/-- Messages stay where they are. -/
def Grows (content content' : Content) : Prop :=
  ∀ p i m, content.message p i = some m → content'.message p i = some m

variable {content content' : Content} {h : History (@Answer E)} {position : Partition → ℕ}
  {k : Kafka.System E}

theorem Below.grow (hb : Below content position h) (hg : Grows content content') :
    Below content' position h := by
  intro p i hi
  obtain ⟨m, hm, ha⟩ := hb p i hi
  exact ⟨m, hg p i m hm, ha⟩

theorem Lossless.grow (hk : Lossless content k) (hg : Grows content content') :
    Lossless content' k := by
  refine ⟨Below.grow hk.committed hg, hk.le, ?_⟩
  have hphase := hk.phase
  split at hphase
  · trivial
  · exact Below.grow hphase hg
  · exact Holds.mono (hphase.weaken fun _ _ hdue ho => Below.grow (hdue ho) hg)
      fun _ _ hb => Below.grow hb hg

theorem grows_append (r : Route π) (wire sent : List (Outbox.Row π)) :
    Grows (topicOf r wire) (topicOf r (wire ++ sent)) := by
  intro p i m hm
  unfold Content.message topicOf at hm ⊢
  rw [List.filter_append, List.map_append]
  obtain ⟨body, hbody, rfl⟩ := Option.map_eq_some_iff.mp hm
  rw [List.getElem?_append_left (List.getElem?_eq_some_iff.mp hbody).1, hbody]
  rfl

/-- A row that is on the wire is on its partition. -/
theorem exists_message {r : Route π} {wire : List (Outbox.Row π)} {row : Outbox.Row π}
    (hrow : row ∈ wire) : ∃ i, (topicOf r wire).message (r.partition row) i =
      some ⟨r.body row, r.partition row, i⟩ := by
  have hmem : r.body row ∈ topicOf r wire (r.partition row) :=
    List.mem_map_of_mem (List.mem_filter.mpr ⟨hrow, decide_eq_true rfl⟩)
  obtain ⟨i, hi⟩ := List.mem_iff_getElem?.mp hmem
  exact ⟨i, by unfold Content.message; rw [hi]; rfl⟩

/-- And what is on a partition was on the wire. -/
theorem exists_row {r : Route π} {wire : List (Outbox.Row π)} {m : Message}
    (hm : (topicOf r wire).message m.partition m.offset = some m) :
    ∃ row ∈ wire, r.partition row = m.partition ∧ r.body row = m.toBody := by
  obtain ⟨body, hbody, hmeq⟩ := Option.map_eq_some_iff.mp hm
  obtain ⟨row, hrow, hrb⟩ := List.mem_map.mp (List.mem_of_getElem? hbody)
  obtain ⟨hwire, hp⟩ := List.mem_filter.mp hrow
  exact ⟨row, hwire, of_decide_eq_true hp, hrb.trans (congrArg Message.toBody hmeq)⟩

/-! ### Handlers see messages of the topic -/

/-- A handler is called with such messages only. -/
def Concerns (S : Message → Prop) : Op E → Prop
  | .handle batch => ∀ x ∈ batch, S x.1
  | _ => True

/-- The program calls handlers with such messages only. -/
abbrev Regards {α : Type} (S : Message → Prop) (p : Pass E α) (Q : α → Prop)
    (h : History (@Answer E)) : Prop :=
  Holds (fun _ o => Concerns S o) p (fun a _ => Q a) h

variable {S : Message → Prop} {m : Message} {event : E}

theorem regards_park {error : Failure} {attempts : ℕ} :
    Regards S (park m error attempts : Pass E Unit) (fun _ => True) h := by
  refine holds_bind.mpr (holds_call trivial fun failedAt => ?_)
  refine holds_bind.mpr (holds_call trivial fun r => ?_)
  cases r <;> trivial

theorem regards_attempt {maxAttempts left : ℕ} (hm : S m) :
    Regards S (attempt maxAttempts m event left) (fun _ => True) h := by
  have hone : ∀ x ∈ [(m, event)], S x.1 := fun x hx => by
    rw [List.mem_singleton.mp hx]
    exact hm
  induction left generalizing h with
  | zero => trivial
  | succ left ih =>
    refine holds_bind.mpr (holds_call hone fun r => ?_)
    cases r with
    | ok u => trivial
    | error error =>
      show Regards S (if left = 0 then _ else _) _ _
      split
      · exact regards_park
      · exact ih

theorem regards_process {maxAttempts : ℕ} (hm : S m) :
    Regards S (process maxAttempts m : Pass E Unit) (fun _ => True) h := by
  refine holds_bind.mpr (holds_call trivial fun r => ?_)
  rcases r with (error | error) | event
  · exact regards_park
  · trivial
  · exact regards_attempt hm

theorem regards_assemble {ms : List Message} (hms : ∀ m ∈ ms, S m) :
    Regards S (assemble ms : Pass E (List (Message × E))) (fun batch => ∀ x ∈ batch, S x.1) h := by
  induction ms generalizing h with
  | nil => exact List.forall_mem_nil _
  | cons m ms ih =>
    obtain ⟨hm, hrest⟩ := List.forall_mem_cons.mp hms
    refine holds_bind.mpr (holds_call trivial fun r => ?_)
    rcases r with (error | error) | event
    · exact holds_bind.mpr (regards_park.mono fun _ h' _ => ih hrest)
    · trivial
    · exact holds_bind.mpr ((ih hrest).mono fun batch h' hbatch =>
        List.forall_mem_cons.mpr ⟨hm, hbatch⟩)

theorem regards_singles {maxAttempts : ℕ} {batch : List (Message × E)}
    (hbatch : ∀ x ∈ batch, S x.1) : Regards S (singles maxAttempts batch) (fun _ => True) h := by
  induction batch generalizing h with
  | nil => trivial
  | cons x batch ih =>
    obtain ⟨hx, hrest⟩ := List.forall_mem_cons.mp hbatch
    exact holds_bind.mpr ((regards_attempt hx).mono fun _ h' _ => ih hrest)

theorem regards_handleBatch {maxAttempts : ℕ} {batch : List (Message × E)}
    (hbatch : ∀ x ∈ batch, S x.1) :
    Regards S (handleBatch maxAttempts batch) (fun _ => True) h := by
  refine holds_bind.mpr (holds_call hbatch fun r => ?_)
  cases r with
  | ok u => trivial
  | error e => exact regards_singles hbatch

theorem regards_commit : Regards S (commit : Pass E Unit) (fun _ => True) h := by
  refine holds_bind.mpr (holds_call trivial fun r => ?_)
  cases r <;> trivial

theorem regards_body {c : Config} {ms : List Message} {pass : Pass E Unit}
    (hbody : c.body ms = some pass) (hms : ∀ m ∈ ms, S m) : Regards S pass (fun _ => True) h := by
  unfold Config.body at hbody
  split at hbody
  · next m _ =>
    cases hbody
    exact holds_bind.mpr ((regards_process (hms m (List.mem_singleton_self m))).mono
      fun _ _ _ => regards_commit)
  · cases hbody
  · cases hbody
  · cases hbody
    refine holds_bind.mpr ((regards_assemble hms).mono fun batch h' hbatch => ?_)
    split
    · exact regards_commit
    · exact holds_bind.mpr ((regards_handleBatch hbatch).mono fun _ _ _ => regards_commit)

/-- The message is on the topic. -/
def OnTopic (content : Content) (m : Message) : Prop :=
  content.message m.partition m.offset = some m

structure Genuine (content : Content) (k : Kafka.System E) : Prop where
  history : ∀ batch r, ⟨.handle batch, r⟩ ∈ k.history → ∀ x ∈ batch, OnTopic content x.1
  phase : ∀ pass, k.phase = .working pass → Regards (OnTopic content) pass (fun _ => True) k.history

theorem Genuine.grow (hk : Genuine content k) (hg : Grows content content') :
    Genuine content' k := by
  have hmono : ∀ m, OnTopic content m → OnTopic content' m := fun m => hg _ _ m
  refine ⟨fun batch r hmem x hx => hmono _ (hk.history batch r hmem x hx), fun pass hp => ?_⟩
  refine Holds.weaken (hk.phase pass hp) fun _ o ho => ?_
  cases o with
  | handle batch => exact fun x hx => hmono _ (ho x hx)
  | _ => trivial

theorem onTopic_of_take {records : List (Partition × ℕ)} {ms : List Message}
    {position' : Partition → ℕ} (ht : take content position records = some (ms, position')) :
    ∀ m ∈ ms, OnTopic content m := by
  induction records generalizing position ms with
  | nil =>
    cases ht
    exact List.forall_mem_nil _
  | cons record records ih =>
    obtain ⟨p, n⟩ := record
    rw [take] at ht
    split at ht
    · obtain ⟨⟨rest, position''⟩, hrest, ht⟩ := Option.bind_eq_some_iff.mp ht
      cases ht
      intro m hm
      rcases List.mem_append.mp hm with hm | hm
      · obtain ⟨i, -, hi⟩ := List.mem_filterMap.mp hm
        obtain ⟨body, -, rfl⟩ := Option.map_eq_some_iff.mp hi
        exact hi
      · exact ih hrest m hm
    · cases ht

variable [DecidableEq E] {c : Config} {k' : Kafka.System E} {l : Kafka.Label E}

theorem genuine_step (hk : Genuine content k) (hs : Kafka.step c content k l = some k') :
    Genuine content k' := by
  cases l with
  | join =>
    simp only [Kafka.step] at hs
    split at hs
    · cases hs
      exact ⟨hk.history, fun pass hp => by cases hp⟩
    · cases hs
  | poll records =>
    simp only [Kafka.step] at hs
    split at hs
    · obtain ⟨⟨ms, position⟩, htake, hs⟩ := Option.bind_eq_some_iff.mp hs
      obtain ⟨pass, hpass, hs⟩ := Option.bind_eq_some_iff.mp hs
      cases hs
      refine ⟨hk.history, fun pass' hp => ?_⟩
      cases hp
      exact regards_body hpass (onTopic_of_take htake)
    · cases hs
  | answer x =>
    simp only [Kafka.step] at hs
    split at hs
    · next p hphase =>
      obtain ⟨rest, hx, hs⟩ := Option.bind_eq_some_iff.mp hs
      cases hs
      obtain ⟨hallowed, hrest⟩ := Holds.answer (hk.phase p hphase) hx
      refine ⟨fun batch r hmem => ?_, fun pass hp => ?_⟩
      · rcases List.mem_cons.mp hmem with heq | hmem
        · rw [← heq] at hallowed
          exact hallowed
        · exact hk.history batch r hmem
      · cases hp
        exact hrest
    · cases hs
  | next =>
    simp only [Kafka.step] at hs
    split at hs
    · cases hs
      exact ⟨hk.history, fun pass hp => by cases hp⟩
    · cases hs
      exact ⟨hk.history, fun pass hp => by cases hp⟩
    · cases hs
  | crash =>
    cases hs
    exact ⟨hk.history, fun pass hp => by cases hp⟩
  | rebalance p =>
    cases hs
    exact ⟨hk.history, hk.phase⟩

/-! ### The group gets to the end -/

/-- With what it is answered: nothing fails. -/
def fine (event : Message → E) (m : Message) : List (Kafka.Label E) :=
  [.poll [(m.partition, 1)], .answer ⟨.decode m.value, .ok (event m)⟩,
    .answer ⟨.handle [(m, event m)], .ok ()⟩, .answer ⟨.commit, .done⟩, .next]

/-- What a group has done once it is up to date. -/
structure CaughtUp (k : Kafka.System E) : Prop where
  phase : k.phase = .polling
  position : k.position = k.committed

theorem take_one {p : Partition} (hm : content.message p (position p) = some m) :
    take content position [(p, 1)] = some ([m], Function.update position p (position p + 1)) := by
  obtain ⟨body, hbody, rfl⟩ := Option.map_eq_some_iff.mp hm
  have hlt : position p + 1 ≤ (content p).length := (List.getElem?_eq_some_iff.mp hbody).1
  rw [take, if_pos hlt]
  show some _ = _
  simp only [List.range'_one, List.filterMap_cons, List.filterMap_nil, hm]
  rfl

theorem answer_op {o : Op E} {next : Answer o → Pass E Unit} {r : Answer o} :
    Prog.answer (.op o next) ⟨o, r⟩ = some (next r) := dif_pos rfl

/-- What a pass over one message does, whichever way the group consumes. -/
theorem body_one (c : Config) (m : Message) (event : E) : ∃ pass pass' pass'' : Pass E Unit,
    c.body [m] = some pass ∧ pass.answer ⟨.decode m.value, .ok event⟩ = some pass' ∧
      pass'.answer ⟨.handle [(m, event)], .ok ()⟩ = some pass'' ∧
      pass''.answer ⟨.commit, .done⟩ = some (.ret ()) := by
  obtain ⟨mode, maxAttempts, hpos⟩ := c
  obtain ⟨left, rfl⟩ := Nat.exists_eq_add_one.mpr hpos
  cases mode with
  | single => exact ⟨_, _, _, rfl, answer_op, answer_op, answer_op⟩
  | batches => exact ⟨_, _, _, rfl, answer_op, answer_op, answer_op⟩

/-- **One message is consumed.** -/
theorem consumes_one (event : Message → E) (hk : CaughtUp k) {p : Partition}
    (hm : content.message p (k.committed p) = some m) : ∃ k',
    exec (Kafka.step c content) k (fine event m) = some k' ∧ CaughtUp k' ∧
      k'.committed = Function.update k.committed p (k.committed p + 1) := by
  have hp : m.partition = p := by
    obtain ⟨body, -, rfl⟩ := Option.map_eq_some_iff.mp hm
    rfl
  have htake : take content k.committed [(m.partition, 1)] =
      some ([m], Function.update k.committed p (k.committed p + 1)) := by
    rw [hp]
    exact take_one hm
  obtain ⟨pass, pass', pass'', hbody, hdecode, hhandle, hcommit⟩ := body_one c m (event m)
  obtain ⟨committed, position, history, phase⟩ := k
  obtain rfl : phase = .polling := hk.phase
  obtain rfl : position = committed := hk.position
  let answered : History (@Answer E) := ⟨.commit, .done⟩ :: ⟨.handle [(m, event m)], .ok ()⟩ ::
    ⟨.decode m.value, .ok (event m)⟩ :: history
  refine ⟨⟨Function.update position p (position p + 1), Function.update position p (position p + 1),
    answered, .polling⟩, ?_, ⟨rfl, rfl⟩, rfl⟩
  simp only [fine, exec_cons, exec_nil, Kafka.step, htake, Option.bind_eq_bind, Option.bind_some,
    Option.pure_def, hbody, hdecode, hhandle, hcommit]
  rfl

/-- **A partition is consumed to its end**, and no offset goes back. -/
theorem consumes (c : Config) (event : Message → E) (p : Partition) (left : ℕ)
    (hk : CaughtUp k) (hle : k.committed p ≤ (content p).length)
    (hleft : (content p).length - k.committed p = left) : ∃ ls k',
    Run (Kafka.step c content) Always k ls k' ∧ CaughtUp k' ∧
      k'.committed = Function.update k.committed p (content p).length := by
  induction left generalizing k with
  | zero =>
    have hend : k.committed p = (content p).length := by omega
    exact ⟨[], k, .nil, hk, by rw [← hend, Function.update_eq_self]⟩
  | succ left ih =>
    have hlt : k.committed p < (content p).length := by omega
    have hm : content.message p (k.committed p) =
        some ⟨(content p)[k.committed p], p, k.committed p⟩ := by
      unfold Content.message
      rw [List.getElem?_eq_getElem hlt]
      rfl
    obtain ⟨k₁, hexec, hk₁, hcommitted⟩ := consumes_one (c := c) event hk hm
    have hat : k₁.committed p = k.committed p + 1 := by rw [hcommitted, Function.update_self]
    obtain ⟨ls, k₂, hrun, hk₂, hcommitted₂⟩ := ih hk₁ (by omega) (by omega)
    refine ⟨_, k₂, (run_iff_exec.mpr hexec).append hrun, hk₂, ?_⟩
    rw [hcommitted₂, hcommitted, Function.update_idem]

/-- No committed offset is past the end. -/
def Within (content : Content) (committed : Partition → ℕ) : Prop :=
  ∀ p, committed p ≤ (content p).length

/-- **With nothing failing, the group gets to the end of any partitions.** -/
theorem exists_caught_up (c : Config) (event : Message → E) (ps : List Partition) (hk : CaughtUp k)
    (hw : Within content k.committed) : ∃ ls k', Run (Kafka.step c content) Always k ls k' ∧
      ∀ p ∈ ps, k'.committed p = (content p).length := by
  have hall : ∃ ls k', Run (Kafka.step c content) Always k ls k' ∧ CaughtUp k' ∧
      Within content k'.committed ∧ ∀ p ∈ ps, k'.committed p = (content p).length := by
    induction ps with
    | nil => exact ⟨[], k, .nil, hk, hw, List.forall_mem_nil _⟩
    | cons p ps ih =>
      obtain ⟨ls, k₁, hrun, hk₁, hw₁, hps⟩ := ih
      obtain ⟨ls', k₂, hrun', hk₂, hcommitted⟩ := consumes c event p _ hk₁ (hw₁ p) rfl
      have hat : ∀ q, k₁.committed q = (content q).length ∨ q = p →
          k₂.committed q = (content q).length := by
        intro q hq
        rw [hcommitted]
        by_cases heq : q = p
        · rw [heq, Function.update_self]
        · rw [Function.update_of_ne heq]
          exact hq.resolve_right heq
      refine ⟨_, k₂, hrun.append hrun', hk₂, fun q => ?_, fun q hq => hat q ?_⟩
      · rw [hcommitted]
        by_cases heq : q = p
        · rw [heq, Function.update_self]
        · rw [Function.update_of_ne heq]
          exact hw₁ q
      · exact (List.mem_cons.mp hq).symm.imp_left (hps q)
  obtain ⟨ls, k', hrun, -, -, hps⟩ := hall
  exact ⟨ls, k', hrun, hps⟩

/-! ### End to end -/

/-- From the commit of a row to its handler. -/
structure Reliable (batchSize : ℕ) (c : Config) (r : Route π) (s : System π τ E) : Prop where
  /-- What is marked as published is on its partition, and below the committed offset it has been
  handled or parked. -/
  accounted : ∀ e ∈ s.producer.outbox, e.published = true → ∃ i,
    (topicOf r s.producer.wire).message (r.partition e.toRow) i =
      some ⟨r.body e.toRow, r.partition e.toRow, i⟩ ∧
    (i < s.consumer.committed (r.partition e.toRow) →
      Accounted s.consumer.history ⟨r.body e.toRow, r.partition e.toRow, i⟩)
  /-- What a handler is called with has been committed by a writer. -/
  genuine : ∀ batch res, ⟨.handle batch, res⟩ ∈ s.consumer.history → ∀ x ∈ batch,
    ∃ e ∈ s.producer.outbox, r.partition e.toRow = x.1.partition ∧ r.body e.toRow = x.1.toBody
  /-- Whatever has failed so far, what is committed can still be delivered. -/
  deliverable : 0 < batchSize → ∀ _ : Message → E, ∃ ls t,
    Run (step (E := E) batchSize c r) Always s ls t ∧ ∀ e ∈ s.producer.outbox, ∃ i,
      (topicOf r t.producer.wire).message (r.partition e.toRow) i =
        some ⟨r.body e.toRow, r.partition e.toRow, i⟩ ∧
      Accounted t.consumer.history ⟨r.body e.toRow, r.partition e.toRow, i⟩

/-- What holds of every state. -/
structure Kept (r : Route π) (s : System π τ E) : Prop where
  producer : Outbox.Lossless s.producer
  consumer : Kafka.Lossless (topicOf r s.producer.wire) s.consumer
  genuine : Genuine (topicOf r s.producer.wire) s.consumer

variable {batchSize : ℕ} {r : Route π} {s t : System π τ E} {w w' : Outbox.World π τ}

theorem wire_grows {i : Outbox.Label π τ} (hs : Outbox.step batchSize w i = some w') :
    Grows (topicOf r w.wire) (topicOf r w'.wire) := by
  have hsame : w'.wire = w.wire → Grows (topicOf r w.wire) (topicOf r w'.wire) :=
    fun heq => heq ▸ fun _ _ _ hm => hm
  rcases Outbox.step_cases hs with ⟨-, -, hwire, -⟩ | ⟨-, -, -, hwire, -⟩ | ⟨-, -, -, hwire, -⟩ |
    ⟨row, done, todo, -, -, hsends, -⟩ | ⟨-, -, -, -, hwire, -⟩
  · exact hsame hwire
  · exact hsame hwire
  · exact hsame hwire
  · rw [hsends.2]
    exact grows_append r w.wire [row]
  · exact hsame hwire

theorem kept_start : Kept r (System.start : System π τ E) where
  producer := Outbox.lossless_init
  consumer := ⟨fun _ _ hi => absurd hi (Nat.not_lt_zero _), fun _ => Nat.le_refl _, trivial⟩
  genuine := ⟨fun _ _ hmem => absurd hmem List.not_mem_nil, fun _ hp => by cases hp⟩

theorem kept_step {l : Label π τ E} (hk : Kept r s) (hs : step batchSize c r s l = some t) :
    Kept r t := by
  cases l with
  | produce l =>
    obtain ⟨w, hw, rfl⟩ := Option.map_eq_some_iff.mp hs
    have hg : Grows (topicOf r s.producer.wire) (topicOf r w.wire) := wire_grows hw
    exact ⟨Outbox.lossless_step hk.producer hw, Lossless.grow hk.consumer hg, hk.genuine.grow hg⟩
  | consume l =>
    obtain ⟨k, hw, rfl⟩ := Option.map_eq_some_iff.mp hs
    exact ⟨hk.producer, lossless_step hk.consumer hw, genuine_step hk.genuine hw⟩

theorem kept_of_run {ls : List (Label π τ E)} (hk : Kept r s)
    (h : Run (step batchSize c r) Always s ls t) : Kept r t :=
  h.invariant hk fun _ _ _ hi _ hs => kept_step hi hs

theorem Kept.accounted (hk : Kept r s) {row : Outbox.Row π} (hrow : row ∈ s.producer.wire) :
    ∃ i, (topicOf r s.producer.wire).message (r.partition row) i =
        some ⟨r.body row, r.partition row, i⟩ ∧
      (i < s.consumer.committed (r.partition row) →
        Accounted s.consumer.history ⟨r.body row, r.partition row, i⟩) := by
  obtain ⟨i, hi⟩ := exists_message (r := r) hrow
  refine ⟨i, hi, fun hlt => ?_⟩
  obtain ⟨m, hm, ha⟩ := hk.consumer.committed _ i hlt
  obtain rfl := Option.some.inj (hi.symm.trans hm)
  exact ha

/-- The producer's part of a run. -/
theorem run_producer {ls : List (Label π τ E)}
    (h : Run (step batchSize c r) Always System.start ls s) :
    ∃ is, Run (Outbox.step batchSize) Always .init is s.producer := by
  refine h.invariant (I := fun s => ∃ is, Run (Outbox.step batchSize) Always .init is s.producer)
    ⟨[], .nil⟩ fun s l t hi _ hs => ?_
  obtain ⟨is, hrun⟩ := hi
  cases l with
  | produce l =>
    obtain ⟨w, hw, rfl⟩ := Option.map_eq_some_iff.mp hs
    exact ⟨_, hrun.snoc trivial hw⟩
  | consume l =>
    obtain ⟨k, hw, rfl⟩ := Option.map_eq_some_iff.mp hs
    exact ⟨is, hrun⟩

theorem run_produce (k : Kafka.System E) {is : List (Outbox.Label π τ)}
    (h : Run (Outbox.step batchSize) Always w is w') :
    ∃ ls, Run (step (E := E) batchSize c r) Always ⟨w, k⟩ ls ⟨w', k⟩ := by
  induction h with
  | nil => exact ⟨[], .nil⟩
  | @snoc is w₁ w₂ i _ _ hs ih =>
    obtain ⟨ls, hrun⟩ := ih
    have hstep : step (E := E) batchSize c r ⟨w₁, k⟩ (.produce i) = some ⟨w₂, k⟩ := by
      simp only [step, hs, Option.map_some]
    exact ⟨_, hrun.snoc trivial hstep⟩

theorem run_consume (batchSize : ℕ) {ls : List (Kafka.Label E)}
    (h : Run (Kafka.step c (topicOf r w.wire)) Always k ls k') :
    ∃ ls, Run (step batchSize c r) Always ⟨w, k⟩ ls ⟨w, k'⟩ := by
  induction h with
  | nil => exact ⟨[], .nil⟩
  | @snoc ls k₁ k₂ l _ _ hs ih =>
    obtain ⟨ls, hrun⟩ := ih
    have hstep : step batchSize c r ⟨w, k₁⟩ (.consume l) = some ⟨w, k₂⟩ := by
      simp only [step, hs, Option.map_some]
    exact ⟨_, hrun.snoc trivial hstep⟩

theorem within_of_below (hb : Below content position h) : Within content position := by
  intro p
  by_contra hlt
  obtain ⟨m, hm, -⟩ := hb p _ (Nat.lt_of_not_le hlt)
  obtain ⟨body, hbody, -⟩ := Option.map_eq_some_iff.mp hm
  exact absurd (List.getElem?_eq_some_iff.mp hbody).1 (Nat.lt_irrefl _)

/-- **Without failures the poller drains the outbox, and the group handles what is there.** -/
theorem Kept.deliverable (hk : Kept r s) (hd : Outbox.Delivers batchSize s.producer)
    (hb : 0 < batchSize) (event : Message → E) : ∃ ls t,
    Run (step (E := E) batchSize c r) Always s ls t ∧ ∀ e ∈ s.producer.outbox, ∃ i,
      (topicOf r t.producer.wire).message (r.partition e.toRow) i =
        some ⟨r.body e.toRow, r.partition e.toRow, i⟩ ∧
      Accounted t.consumer.history ⟨r.body e.toRow, r.partition e.toRow, i⟩ := by
  obtain ⟨w, ⟨is, -, hpolls⟩, hwire⟩ := hd.drained hb
  obtain ⟨ls₁, hrun₁⟩ := run_produce (c := c) (r := r) s.consumer hpolls
  have hk₁ : Kept r ⟨w, s.consumer⟩ := kept_of_run hk hrun₁
  -- the group starts anew
  let k : Kafka.System E :=
    { s.consumer with position := s.consumer.committed, phase := .polling }
  have hrestart : Run (Kafka.step c (topicOf r w.wire)) Always s.consumer [.crash, .join] k :=
    run_iff_exec.mpr rfl
  obtain ⟨ls₂, hrun₂⟩ := run_consume batchSize hrestart
  obtain ⟨ls, k', hrun, hend⟩ := exists_caught_up c event
    (s.producer.outbox.rows.map fun e => r.partition e.toRow) (k := k) ⟨rfl, rfl⟩
    (within_of_below hk₁.consumer.committed)
  obtain ⟨ls₃, hrun₃⟩ := run_consume batchSize hrun
  have hall := (hrun₁.append hrun₂).append hrun₃
  refine ⟨_, ⟨w, k'⟩, hall, fun e he => ?_⟩
  obtain ⟨i, hi, ha⟩ := (kept_of_run hk hall).accounted (hwire e he)
  refine ⟨i, hi, ha ?_⟩
  show i < k'.committed _
  rw [hend _ (List.mem_map_of_mem he)]
  obtain ⟨body, hbody, -⟩ := Option.map_eq_some_iff.mp hi
  exact (List.getElem?_eq_some_iff.mp hbody).1

/-- **No event is lost on its way, and none is made up.** -/
theorem reliable_of_run {ls : List (Label π τ E)}
    (h : Run (step batchSize c r) Always System.start ls s) : Reliable batchSize c r s := by
  have hk : Kept r s := kept_of_run kept_start h
  obtain ⟨is, hrun⟩ := run_producer h
  have hd : Outbox.Delivers batchSize s.producer := Outbox.delivers_of_run hrun
  refine ⟨fun e he hp => hk.accounted (hd.marked e he hp), fun batch res hmem x hx => ?_,
    fun hb event => hk.deliverable hd hb event⟩
  obtain ⟨row, hrow, hp, hbody⟩ := exists_row (hk.genuine.history batch res hmem x hx)
  obtain ⟨e, he, rfl⟩ := hd.known row hrow
  exact ⟨e, he, hp, hbody⟩

/-! ### An event that is sent twice -/

def byAggregate : Route ℕ where
  partition row := ⟨"inventory.events", row.aggregate.id.length⟩
  body row := ⟨some [UInt8.ofNat row.body], some (encode row.aggregate.id), []⟩

def teaOn (offset : ℕ) : Message :=
  ⟨⟨some [7], some (encode "r1:tea"), []⟩, ⟨"inventory.events", 6⟩, offset⟩

/-- The poller is stopped after a send; the group is killed between its handler and its commit. -/
def resent : List (Label ℕ ℕ ℕ) :=
  [.produce (.begin 0 5), .produce (.lock 0 ⟨"stock", "r1:tea"⟩),
    .produce (.stage 0 "e1" ⟨"stock", "r1:tea"⟩ 7), .produce (.commit 0), .produce .select,
    .produce (.fail true), .consume .join, .consume (.poll [(⟨"inventory.events", 6⟩, 1)]),
    .consume (.answer ⟨.decode (some [7]), .ok 7⟩),
    .consume (.answer ⟨.handle [(teaOn 0, 7)], .ok ()⟩), .consume .crash, .produce .select,
    .produce .send, .produce .mark, .consume .join,
    .consume (.poll [(⟨"inventory.events", 6⟩, 2)]),
    .consume (.answer ⟨.decode (some [7]), .ok 7⟩),
    .consume (.answer ⟨.decode (some [7]), .ok 7⟩),
    .consume (.answer ⟨.handle [(teaOn 0, 7), (teaOn 1, 7)], .ok ()⟩),
    .consume (.answer ⟨.commit, .done⟩)]

theorem reliable_of_run_resent : ∃ s : System ℕ ℕ ℕ,
    Run (step 100 batching byAggregate) Always .start resent s ∧
      (s.producer.wire.length = 2 ∧ s.consumer.committed ⟨"inventory.events", 6⟩ = 2) ∧
      Reliable 100 batching byAggregate s := by
  obtain ⟨s, hrun, hp⟩ : ∃ s : System ℕ ℕ ℕ,
      Run (step 100 batching byAggregate) Always .start resent s ∧
        decide (s.producer.wire.length = 2 ∧
          s.consumer.committed ⟨"inventory.events", 6⟩ = 2) = true :=
    exists_run_of_execOk (by decide +kernel)
  exact ⟨s, hrun, of_decide_eq_true hp, reliable_of_run hrun⟩

end Kafka.Pipeline
