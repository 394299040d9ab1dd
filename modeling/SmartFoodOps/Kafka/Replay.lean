/-
smartfood-kafka: the replay of what has been parked.

* `replayOf` — what a parked message tells; `replayOf_stamped` — it undoes the parking;
* `replayBatch`, `drain` — what a run does with the messages that it has been handed;
* `System`, `step` — topics that grow, while applications write, consumers park, and one run of the
  replay at a time polls, republishes and commits; it may fail or crash anywhere;
* `Settled`, `Owes` — what has become of a message, and what a run owes before it commits;
* `Traced` — where everything on a topic comes from;
* `replay_lossless` — below the committed offsets nothing is lost, over any number of rounds.

An error is a SerdeError by the name of its type, which is all that the stamps keep of it.
-/
import SmartFoodOps.Kafka.Delivery
import SmartFoodOps.Lib.Dict

open Interaction Machine

namespace Kafka

/-! ### Texts -/

/-- `decode`; `none` is a UnicodeDecodeError. -/
def decode (bs : Bytes) : Option String := String.fromUTF8? ⟨bs.toArray⟩

theorem toList_loop (b : ByteArray) (i : ℕ) (r : List UInt8) :
    ByteArray.toList.loop b i r = r.reverse ++ b.data.toList.drop i := by
  fun_induction ByteArray.toList.loop b i r with
  | case1 i r h ih =>
    have hi : i < b.data.toList.length := h
    have hget : b.get! i = b.data.toList[i] := getElem!_pos b.data i h
    rw [ih, List.reverse_cons, List.append_assoc, List.drop_eq_getElem_cons hi, hget]
    rfl
  | case2 i r h => rw [List.drop_eq_nil_of_le (Nat.le_of_not_lt h), List.append_nil]

theorem decode_encode (s : String) : decode (encode s) = some s := by
  have hdata : (encode s).toArray = s.toUTF8.data := by
    show (ByteArray.toList.loop s.toUTF8 0 []).toArray = s.toUTF8.data
    rw [toList_loop]
    rfl
  unfold decode
  rw [hdata]
  exact dif_pos s.isValidUTF8

namespace Replay

/-! ### Headers -/

/-- `startswith("dlq.")`. -/
def isStamp (name : String) : Bool := "dlq.".toList.isPrefixOf name.toList

/-- `by_key.get(name)`: the last header of the name that has a value. -/
def header (headers : List (String × Option Bytes)) (name : String) : Option Bytes :=
  ((Dict.index Prod.fst (headers.filterMap fun h => h.2.map fun v => (h.1, v))).get name).map Prod.snd

/-- `clean`. -/
def clean (headers : List (String × Option Bytes)) : List (String × Option Bytes) :=
  headers.filter fun h => ! isStamp h.1

/-- No header is `dlq.*`. -/
def Clean (headers : List (String × Option Bytes)) : Prop := ∀ h ∈ headers, isStamp h.1 = false

instance (headers : List (String × Option Bytes)) : Decidable (Clean headers) :=
  inferInstanceAs (Decidable (∀ h ∈ headers, _))

variable {hs : List (String × Option Bytes)} {m : Message} {error : Failure} {attempts : ℕ}
  {failedAt : String}

theorem clean_clean : Clean (clean hs) := fun h hh => by
  simpa using (List.mem_filter.mp hh).2

theorem clean_eq (h : Clean hs) : clean hs = hs :=
  List.filter_eq_self.mpr fun x hx => by rw [h x hx]; rfl

/-- A header that comes last counts. -/
theorem header_append {ss : List (String × Option Bytes)} {name : String} {v : Bytes}
    (h : header ss name = some v) : header (hs ++ ss) name = some v := by
  unfold header at h ⊢
  rw [Dict.get_index] at h ⊢
  rw [List.filterMap_append, List.filter_append, List.getLast?_append]
  obtain ⟨x, hx, hv⟩ := Option.map_eq_some_iff.mp h
  rw [hx]
  exact congrArg some hv

theorem header_eq_none (h : Clean hs) {name : String} (hn : isStamp name = true) :
    header hs name = none := by
  unfold header
  rw [Option.map_eq_none_iff, Dict.get_index_eq_none]
  rintro x hx rfl
  obtain ⟨y, hy, hxy⟩ := List.mem_filterMap.mp hx
  obtain ⟨v, -, rfl⟩ := Option.map_eq_some_iff.mp hxy
  exact Bool.false_ne_true ((h y hy).symm.trans hn)

theorem header_source : header (hs ++ dlqStamps m error attempts failedAt) "dlq.source.topic" =
    some (encode m.partition.topic) :=
  header_append rfl

theorem header_type : header (hs ++ dlqStamps m error attempts failedAt) "dlq.error.type" =
    some (encode error.type) :=
  header_append rfl

theorem isStamp_of_mem {x : String × Option Bytes}
    (hx : x ∈ dlqStamps m error attempts failedAt) : isStamp x.1 = true := by
  have hnames : ((dlqStamps m error attempts failedAt).map Prod.fst).all isStamp = true := by
    show (["dlq.error.type", "dlq.error.message", "dlq.source.topic", "dlq.source.partition",
      "dlq.source.offset", "dlq.attempts", "dlq.failed_at"].all isStamp) = true
    decide +kernel
  exact List.all_eq_true.mp hnames _ (List.mem_map_of_mem hx)

/-- There is one set of stamps. -/
theorem filter_stamps (h : Clean hs) : (hs ++ dlqStamps m error attempts failedAt).filter
    (fun x => isStamp x.1) = dlqStamps m error attempts failedAt := by
  have hnil : hs.filter (fun x => isStamp x.1) = [] :=
    List.filter_eq_nil_iff.mpr fun x hx => by rw [h x hx]; exact Bool.false_ne_true
  rw [List.filter_append, hnil, List.nil_append]
  exact List.filter_eq_self.mpr fun x hx => isStamp_of_mem hx

theorem clean_append : clean (hs ++ dlqStamps m error attempts failedAt) = clean hs := by
  have hnil : clean (dlqStamps m error attempts failedAt) = [] :=
    List.filter_eq_nil_iff.mpr fun x hx => by rw [isStamp_of_mem hx]; exact Bool.false_ne_true
  show (hs ++ dlqStamps m error attempts failedAt).filter (fun h => ! isStamp h.1) = clean hs
  rw [List.filter_append]
  exact (congrArg (clean hs ++ ·) hnil).trans (List.append_nil _)

theorem not_clean : ¬ Clean (hs ++ dlqStamps m error attempts failedAt) := fun h => by
  have hmem : ("dlq.error.type", some (encode error.type)) ∈ dlqStamps m error attempts failedAt :=
    List.mem_cons_self
  exact Bool.false_ne_true ((h _ (List.mem_append_right _ hmem)).symm.trans (isStamp_of_mem hmem))

/-! ### What a parked message tells -/

inductive Verdict
  /-- It stays; the line is logged. -/
  | skip (line : String)
  | send (record : Record)
  /-- The name of its topic is no text: a UnicodeDecodeError. -/
  | undecodable
  deriving DecidableEq

def noSource : String := "parked event carries no dlq.source.topic — cannot replay"

def poison : String := "undecodable original — replay would only re-park it"

def replayOf (b : Body) : Verdict :=
  match header b.headers "dlq.source.topic" with
  | none => .skip noSource
  | some source =>
    -- what is no text is replaced by another text
    if decode ((header b.headers "dlq.error.type").getD []) = some "SerdeError" then .skip poison
    else match decode source with
      | some topic => .send ⟨topic, b.value, b.key, clean b.headers⟩
      | none => .undecodable

/-- What a consumer has put on the dead-letter topic. -/
def stamped (m : Message) (error : Failure) (attempts : ℕ) (failedAt : String) : Body :=
  ⟨m.value, m.key, m.headers ++ dlqStamps m error attempts failedAt⟩

/-- **Replay undoes parking.** -/
theorem replayOf_stamped : replayOf (stamped m error attempts failedAt) =
    if error.type = "SerdeError" then .skip poison
    else .send ⟨m.partition.topic, m.value, m.key, clean m.headers⟩ := by
  unfold replayOf stamped
  rw [header_source, header_type, Option.getD_some, decode_encode, clean_append]
  simp only [Option.some.injEq, decode_encode]

theorem replayOf_of_none {b : Body} (h : header b.headers "dlq.source.topic" = none) :
    replayOf b = .skip noSource := by
  unfold replayOf
  rw [h]

/-- What is sent has lost its stamps. -/
theorem clean_of_replayOf {b : Body} {r : Record} (h : replayOf b = .send r) : Clean r.headers := by
  unfold replayOf at h
  split at h
  · cases h
  · split at h
    · cases h
    · split at h
      · cases h
        exact clean_clean
      · cases h

/-- What is skipped is a SerdeError, or has no source topic. -/
theorem skip_iff {b : Body} : (∃ line, replayOf b = .skip line) ↔
    header b.headers "dlq.source.topic" = none ∨
      decode ((header b.headers "dlq.error.type").getD []) = some "SerdeError" := by
  unfold replayOf
  cases hs : header b.headers "dlq.source.topic" with
  | none => simp
  | some source =>
    by_cases he : decode ((header b.headers "dlq.error.type").getD []) = some "SerdeError"
    · simp [he]
    · cases hd : decode source <;> simp [he, hd]

/-! ### A run of the replay -/

inductive Op
  /-- Log that the message stays. -/
  | skip (m : Message) (line : String)
  | send (record : Record)
  | commit
  deriving DecidableEq

abbrev Answer : Op → Type
  | .skip _ _ => Unit
  | .send _ => Except Failure Unit
  | .commit => CommitResult

/-- What ends a run before it is through. -/
inductive Raised
  | undecodable (m : Message)
  | failed (error : Failure)
  deriving DecidableEq

/-- A part of a run; `ℕ × ℕ` are `replayed` and `skipped`. -/
abbrev Drain := Prog Answer Raised

def replayBatch : List Message → ℕ × ℕ → Drain (ℕ × ℕ)
  | [], counts => return counts
  | m :: ms, (replayed, skipped) =>
    match replayOf m.toBody with
    | .skip line => do
      Prog.call (Op.skip m line)
      replayBatch ms (replayed, skipped + 1)
    | .send record => do
      match ← (Prog.call (Op.send record) : Drain (Except Failure Unit)) with
      | .ok () => replayBatch ms (replayed + 1, skipped)
      | .error error => .fail (.failed error)
    | .undecodable => .fail (.undecodable m)

/-- One round of the loop: the messages, and the commit after them. -/
def drain (ms : List Message) (counts : ℕ × ℕ) : Drain (ℕ × ℕ) := do
  let counts ← replayBatch ms counts
  match ← (Prog.call Op.commit : Drain CommitResult) with
  | .done => return counts
  | .failed _ error => .fail (.failed error)

/-! ### Topics that grow -/

/-- A partition and an offset. -/
abbrev Place := Partition × ℕ

def put (logs : Content) (p : Partition) (body : Body) : Content :=
  Function.update logs p (logs p ++ [body])

/-- The place of what is put there next. -/
def free (logs : Content) (p : Partition) : Place := (p, (logs p).length)

def body (logs : Content) (place : Place) : Option Body := (logs place.1)[place.2]?

/-- Nothing that is there is lost or moved. -/
def Grown (logs logs' : Content) : Prop :=
  ∀ place b, body logs place = some b → body logs' place = some b

variable {logs logs' : Content} {place : Place} {b b' : Body} {p : Partition}

theorem body_put : body (put logs p b) place =
    if place = free logs p then some b else body logs place := by
  obtain ⟨q, i⟩ := place
  unfold body put free
  by_cases hq : q = p
  · subst hq
    rw [Function.update_self]
    by_cases hi : i = (logs q).length
    · rw [if_pos (by rw [hi]), hi, List.getElem?_append_right (Nat.le_refl _), Nat.sub_self]
      rfl
    · rw [if_neg fun h => hi (Prod.mk.inj h).2]
      rcases Nat.lt_or_gt_of_ne hi with hlt | hgt
      · exact List.getElem?_append_left hlt
      · rw [List.getElem?_eq_none (Nat.le_of_lt hgt), List.getElem?_eq_none]
        rw [List.length_append]
        exact hgt
  · rw [if_neg fun h => hq (Prod.mk.inj h).1, Function.update_of_ne hq]

theorem body_free : body logs (free logs p) = none :=
  List.getElem?_eq_none (Nat.le_refl _)

theorem grown_put : Grown logs (put logs p b) := by
  intro place b' hb
  rw [body_put, if_neg, hb]
  rintro rfl
  rw [body_free] at hb
  cases hb

theorem Grown.refl : Grown logs logs := fun _ _ h => h

theorem message_eq {i : ℕ} : logs.message p i = (body logs (p, i)).map fun b => ⟨b, p, i⟩ := rfl

theorem message_eq_some {i : ℕ} {m : Message} : logs.message p i = some m ↔
    body logs (p, i) = some m.toBody ∧ m.partition = p ∧ m.offset = i := by
  rw [message_eq, Option.map_eq_some_iff]
  constructor
  · rintro ⟨b, hb, rfl⟩
    exact ⟨hb, rfl, rfl⟩
  · rintro ⟨hb, rfl, rfl⟩
    exact ⟨m.toBody, hb, rfl⟩

/-! ### The system -/

/-- What a consumer has parked, and where. -/
structure Parking where
  message : Message
  error : Failure
  attempts : ℕ
  failedAt : String
  place : Place

def Parking.body (k : Parking) : Body := stamped k.message k.error k.attempts k.failedAt

inductive Phase
  /-- No run, or one that is over. -/
  | down
  | polling (topic : String) (counts : ℕ × ℕ)
  | draining (topic : String) (rest : Drain (ℕ × ℕ))

structure System where
  logs : Content
  /-- Where applications have written. -/
  written : List Place
  parkings : List Parking
  /-- Where the replay has put what it has sent. -/
  republished : List Place
  /-- The offsets of the group `dlq-replay`. -/
  committed : Partition → ℕ
  position : Partition → ℕ
  /-- What has been answered, newest first. -/
  history : History Answer
  phase : Phase
  /-- What the last run that came to its end has returned. -/
  returned : Option (ℕ × ℕ)

def System.start : System where
  logs := fun _ => []
  written := []
  parkings := []
  republished := []
  committed := fun _ => 0
  position := fun _ => 0
  history := []
  phase := .down
  returned := none

inductive Label
  | write (p : Partition) (body : Body)
  /-- A consumer gives a message up; the index is that of the partition of the dead-letter topic. -/
  | park (p : Partition) (offset : ℕ) (error : Failure) (attempts : ℕ) (failedAt : String)
    (index : ℕ)
  | start (topic : String)
  | poll (records : List (Partition × ℕ))
  /-- The operation that is due is answered; the index is that of the partition of what is sent. -/
  | answer (x : Sigma Answer) (index : Option ℕ)
  | next
  | crash
  | rebalance (p : Partition)

/-- Only a commit moves the offsets. -/
def commits : Sigma Answer → Bool
  | ⟨.commit, .done⟩ => true
  | ⟨.commit, .failed applied _⟩ => applied
  | _ => false

/-- What is acknowledged is on its topic. -/
def acknowledged : Sigma Answer → Bool
  | ⟨.send _, .ok _⟩ => true
  | _ => false

/-- What has been put on a topic: what has failed may be there all the same. -/
def sent : Sigma Answer → Option ℕ → Option (Partition × Body)
  | ⟨.send record, _⟩, some index =>
    some (⟨record.topic, index⟩, ⟨record.value, record.key, record.headers⟩)
  | _, _ => none

def System.publish (s : System) : Option (Partition × Body) → System
  | none => s
  | some (p, b) => { s with logs := put s.logs p b, republished := free s.logs p :: s.republished }

def step (s : System) : Label → Option System
  | .write p body =>
    some { s with logs := put s.logs p body, written := free s.logs p :: s.written }
  | .park p offset error attempts failedAt index => do
    let m ← s.logs.message p offset
    let q : Partition := ⟨(parked m error attempts failedAt).topic, index⟩
    return { s with
      logs := put s.logs q (stamped m error attempts failedAt)
      parkings := ⟨m, error, attempts, failedAt, free s.logs q⟩ :: s.parkings }
  | .start topic =>
    match s.phase with
    | .down => some { s with position := s.committed, phase := .polling topic (0, 0) }
    | _ => none
  | .poll records =>
    match s.phase with
    | .polling topic counts => do
      guard (records.all fun r => r.1.topic = topic)
      let (ms, position) ← take s.logs s.position records
      -- caught up
      if ms = [] then return { s with phase := .down, returned := some counts }
      return { s with position := position, phase := .draining topic (drain ms counts) }
    | _ => none
  | .answer x index =>
    match s.phase with
    | .draining topic p => do
      let rest ← p.answer x
      guard (acknowledged x → index.isSome)
      return { s.publish (sent x index) with
        committed := if commits x then s.position else s.committed
        history := x :: s.history
        phase := .draining topic rest }
    | _ => none
  | .next =>
    match s.phase with
    | .draining topic (.ret counts) => some { s with phase := .polling topic counts }
    | .draining _ (.fail _) => some { s with phase := .down }
    | _ => none
  | .crash => some { s with phase := .down }
  | .rebalance p => some { s with position := Function.update s.position p (s.committed p) }

/-! ### What has become of a message -/

variable {h h' : History Answer} {position position' : Partition → ℕ} {counts : ℕ × ℕ}
  {ms : List Message} {r : Record}

def Skipped (h : History Answer) (m : Message) : Prop := ∃ line, ⟨.skip m line, ()⟩ ∈ h

def Sent (h : History Answer) (r : Record) : Prop := ⟨.send r, .ok ()⟩ ∈ h

/-- What the message tells has been done. -/
def Settled (h : History Answer) (m : Message) : Prop :=
  match replayOf m.toBody with
  | .skip line => ⟨.skip m line, ()⟩ ∈ h
  | .send r => Sent h r
  | .undecodable => False

theorem Settled.mono (hm : Settled h m) (hsub : h ⊆ h') : Settled h' m := by
  unfold Settled at hm ⊢
  split
  · next hv =>
    rw [hv] at hm
    exact hsub hm
  · next hv =>
    rw [hv] at hm
    exact hsub hm
  · next hv =>
    rw [hv] at hm
    exact hm

/-- Everything before the position is settled. -/
def Below (logs : Content) (position : Partition → ℕ) (h : History Answer) : Prop :=
  ∀ p i, i < position p → ∃ m, logs.message p i = some m ∧ Settled h m

theorem message_grown (hg : Grown logs logs') {i : ℕ} (hm : logs.message p i = some m) :
    logs'.message p i = some m :=
  message_eq_some.mpr ((message_eq_some.mp hm).imp_left (hg _ _))

theorem Below.mono (hb : Below logs position h) (hg : Grown logs logs') (hsub : h ⊆ h')
    (hle : ∀ p, position' p ≤ position p) : Below logs' position' h' := by
  intro p i hi
  obtain ⟨m, hm, hs⟩ := hb p i (hi.trans_le (hle p))
  exact ⟨m, message_grown hg hm, hs.mono hsub⟩

/-- What may be done before a commit. -/
def Allowed (logs : Content) : Op → Prop
  | .skip m line => replayOf m.toBody = .skip line
  | .send r => ∃ place b, body logs place = some b ∧ replayOf b = .send r
  | .commit => False

def Due (logs : Content) (position : Partition → ℕ) (h : History Answer) : Op → Prop
  | .commit => Below logs position h
  | o => Allowed logs o

theorem Due.mono {o : Op} (hd : Due logs position h o) (hg : Grown logs logs')
    (hle : ∀ p, position' p ≤ position p) : Due logs' position' h o := by
  cases o with
  | skip m line => exact hd
  | send r =>
    obtain ⟨place, b, hb, hv⟩ := hd
    exact ⟨place, b, hg _ _ hb, hv⟩
  | commit => exact Below.mono hd hg (fun _ hx => hx) hle

/-- What a run owes while it drains. -/
abbrev Owes (logs : Content) (position : Partition → ℕ) (p : Drain (ℕ × ℕ)) (h : History Answer) :
    Prop :=
  Holds (Due logs position) p (fun _ h' => Below logs position h') h

/-- Either every message of a batch is settled, or the run is over. -/
theorem holds_replayBatch (hms : ∀ m ∈ ms, logs.message m.partition m.offset = some m) :
    Holds (fun _ o => Allowed logs o) (replayBatch ms counts)
      (fun _ h' => h ⊆ h' ∧ ∀ m ∈ ms, Settled h' m) h := by
  induction ms generalizing counts h with
  | nil => exact ⟨fun _ hx => hx, List.forall_mem_nil _⟩
  | cons m ms ih =>
    obtain ⟨hm, hms⟩ := List.forall_mem_cons.mp hms
    obtain ⟨replayed, skipped⟩ := counts
    unfold replayBatch
    cases hv : replayOf m.toBody with
    | skip line =>
      refine holds_bind.mpr (holds_call hv fun _ => (ih hms).mono fun _ h' hh => ?_)
      refine ⟨fun x hx => hh.1 (List.mem_cons_of_mem _ hx), List.forall_mem_cons.mpr ⟨?_, hh.2⟩⟩
      unfold Settled
      rw [hv]
      exact hh.1 List.mem_cons_self
    | send record =>
      have hallowed : Allowed logs (.send record) := ⟨_, _, (message_eq_some.mp hm).1, hv⟩
      refine holds_bind.mpr (holds_call hallowed fun r => ?_)
      cases r with
      | error error => trivial
      | ok u =>
        refine (ih hms).mono fun _ h' hh => ?_
        refine ⟨fun x hx => hh.1 (List.mem_cons_of_mem _ hx), List.forall_mem_cons.mpr ⟨?_, hh.2⟩⟩
        unfold Settled
        rw [hv]
        exact hh.1 List.mem_cons_self
    | undecodable => trivial

/-- What is handed out stands there. -/
theorem message_of_take {records : List (Partition × ℕ)}
    (ht : take logs position records = some (ms, position')) :
    ∀ m ∈ ms, logs.message m.partition m.offset = some m := by
  induction records generalizing position ms with
  | nil =>
    cases ht
    exact List.forall_mem_nil _
  | cons record records ih =>
    obtain ⟨p, n⟩ := record
    rw [take] at ht
    split at ht
    · obtain ⟨⟨rest, position''⟩, hrest, ht⟩ := Option.bind_eq_some_iff.mp ht
      cases ht
      intro m hm
      rcases List.mem_append.mp hm with hm | hm
      · obtain ⟨i, -, hi⟩ := List.mem_filterMap.mp hm
        obtain ⟨-, rfl, rfl⟩ := message_eq_some.mp hi
        exact hi
      · exact ih hrest m hm
    · cases ht

/-- **A run commits only what it has settled.** -/
theorem owes_drain (hb : Below logs position h) (hhanded : Handed logs position position' ms)
    (hms : ∀ m ∈ ms, logs.message m.partition m.offset = some m) :
    Owes logs position' (drain ms counts) h := by
  refine holds_bind.mpr (Holds.mono ((holds_replayBatch hms).weaken ?_) fun counts' h' hh => ?_)
  · intro _ o ho
    cases o with
    | skip m line => exact ho
    | send r => exact ho
    | commit => exact ho.elim
  have hbelow : Below logs position' h' := by
    intro p i hi
    by_cases hlow : position p ≤ i
    · obtain ⟨m, hm, hmessage⟩ := hhanded.mem p i hlow hi
      exact ⟨m, hmessage, hh.2 m hm⟩
    · exact hb.mono .refl hh.1 (fun _ => Nat.le_refl _) p i (Nat.lt_of_not_le hlow)
  refine holds_bind.mpr (holds_call hbelow fun r => ?_)
  cases r with
  | done => exact hbelow.mono .refl (fun x hx => List.mem_cons_of_mem _ hx) fun _ => Nat.le_refl _
  | failed applied error => trivial

/-! ### Invariants -/

/-- What a run keeps to, in each phase. -/
def Fine (logs : Content) (position : Partition → ℕ) (h : History Answer) : Phase → Prop
  | .down => True
  | .polling _ _ => Below logs position h
  | .draining _ p => Owes logs position p h

theorem Fine.mono {phase : Phase} (hf : Fine logs position h phase) (hg : Grown logs logs')
    (hle : ∀ p, position' p ≤ position p) : Fine logs' position' h phase := by
  cases phase with
  | down => trivial
  | polling topic counts => exact Below.mono hf hg (fun _ hx => hx) hle
  | draining topic p =>
    exact Holds.mono (Holds.weaken hf fun _ _ hd => hd.mono hg hle)
      fun _ _ hb => hb.mono hg (fun _ hx => hx) hle

/-- Everything before the committed offsets is settled. -/
structure Sound (s : System) : Prop where
  committed : Below s.logs s.committed s.history
  le : ∀ p, s.committed p ≤ s.position p
  phase : Fine s.logs s.position s.history s.phase

/-- Where everything on a topic comes from, and what has been put where. -/
structure Traced (s : System) : Prop where
  entries : ∀ place b, body s.logs place = some b →
    place ∈ s.written ∨ (∃ k ∈ s.parkings, k.place = place) ∨ place ∈ s.republished
  parked : ∀ k ∈ s.parkings, body s.logs k.place = some k.body ∧
    k.place.1.topic = k.message.partition.topic ++ ".dlq" ∧
    s.logs.message k.message.partition k.message.offset = some k.message
  clean : ∀ place ∈ s.republished, ∃ b, body s.logs place = some b ∧ Clean b.headers
  sent : ∀ r, Sent s.history r → ∃ place ∈ s.republished, place.1.topic = r.topic ∧
    body s.logs place = some ⟨r.value, r.key, r.headers⟩
  skips : ∀ m line, ⟨.skip m line, ()⟩ ∈ s.history → replayOf m.toBody = .skip line

variable {s t : System} {l : Label} {x : Sigma Answer} {index : Option ℕ}

theorem publish_logs_grown : Grown s.logs (s.publish (sent x index)).logs := by
  cases sent x index with
  | none => exact .refl
  | some e => exact grown_put

theorem answer_of_step (h : step s (.answer x index) = some t) :
    ∃ topic p rest, s.phase = .draining topic p ∧ p.answer x = some rest ∧
      (acknowledged x = true → index.isSome = true) ∧
      t = { s.publish (sent x index) with
        committed := if commits x then s.position else s.committed
        history := x :: s.history
        phase := .draining topic rest } := by
  simp only [step] at h
  split at h
  · next topic p hphase =>
    obtain ⟨rest, hx, h⟩ := Option.bind_eq_some_iff.mp h
    obtain ⟨_, hack, h⟩ := Option.bind_eq_some_iff.mp h
    exact ⟨topic, p, rest, hphase, hx, (Option.guard_eq_some' _).mp hack, (Option.some.inj h).symm⟩
  · cases h

theorem park_of_step {offset attempts i : ℕ} {error : Failure} {failedAt : String}
    (h : step s (.park p offset error attempts failedAt i) = some t) :
    ∃ m, s.logs.message p offset = some m ∧
      t = { s with
        logs := put s.logs ⟨m.partition.topic ++ ".dlq", i⟩ (stamped m error attempts failedAt)
        parkings := ⟨m, error, attempts, failedAt, free s.logs ⟨m.partition.topic ++ ".dlq", i⟩⟩ ::
          s.parkings } := by
  obtain ⟨m, hm, h⟩ := Option.bind_eq_some_iff.mp h
  exact ⟨m, hm, (Option.some.inj h).symm⟩

/-- Only an application, a parking or an answer puts something on a topic. -/
theorem still_of_step (h : step s l = some t) (hl : match l with
      | .start _ | .poll _ | .next | .crash | .rebalance _ => True
      | _ => False) : ∃ position phase returned,
    t = { s with position := position, phase := phase, returned := returned } := by
  cases l with
  | write | park | answer => exact hl.elim
  | poll records =>
    simp only [step] at h
    split at h
    · obtain ⟨-, -, h⟩ := Option.bind_eq_some_iff.mp h
      obtain ⟨⟨ms, position⟩, -, h⟩ := Option.bind_eq_some_iff.mp h
      dsimp only at h
      split at h <;> cases h <;> exact ⟨_, _, _, rfl⟩
    · cases h
  | start | next =>
    simp only [step] at h
    split at h <;> cases h <;> exact ⟨_, _, _, rfl⟩
  | crash | rebalance =>
    cases h
    exact ⟨_, _, _, rfl⟩

theorem sound_answer (hs : Sound s) (h : step s (.answer x index) = some t) : Sound t := by
  obtain ⟨topic, p, rest, hphase, hx, -, rfl⟩ := answer_of_step h
  have hp := hs.phase
  rw [hphase] at hp
  obtain ⟨hdue, hrest⟩ := Holds.answer hp hx
  have hg : Grown s.logs (s.publish (sent x index)).logs := publish_logs_grown
  have hsub : s.history ⊆ x :: s.history := fun y hy => List.mem_cons_of_mem x hy
  have hposition : (s.publish (sent x index)).position = s.position := by
    cases sent x index <;> rfl
  refine ⟨?_, fun q => ?_, ?_⟩
  · show Below (s.publish (sent x index)).logs (if commits x then s.position else s.committed)
      (x :: s.history)
    split
    · next hcommits =>
      have hop : Below s.logs s.position s.history := by
        obtain ⟨o, r⟩ := x
        cases o <;> first | exact hdue | cases hcommits
      exact hop.mono hg hsub fun _ => Nat.le_refl _
    · exact hs.committed.mono hg hsub fun _ => Nat.le_refl _
  · show (if commits x then s.position else s.committed) q ≤ (s.publish (sent x index)).position q
    rw [hposition]
    split
    · exact Nat.le_refl _
    · exact hs.le q
  · show Fine (s.publish (sent x index)).logs (s.publish (sent x index)).position (x :: s.history)
      (.draining topic rest)
    rw [hposition]
    exact @Fine.mono _ _ _ _ _ (.draining topic rest) hrest hg fun _ => Nat.le_refl _

theorem sound_step (hs : Sound s) (h : step s l = some t) : Sound t := by
  have hgrow : ∀ p b, Below (put s.logs p b) s.committed s.history ∧
      Fine (put s.logs p b) s.position s.history s.phase := fun p b =>
    ⟨hs.committed.mono grown_put (fun _ hx => hx) fun _ => Nat.le_refl _,
      hs.phase.mono grown_put fun _ => Nat.le_refl _⟩
  cases l with
  | write p b =>
    cases h
    exact ⟨(hgrow p b).1, hs.le, (hgrow p b).2⟩
  | park p offset error attempts failedAt i =>
    obtain ⟨m, -, rfl⟩ := park_of_step h
    exact ⟨(hgrow _ _).1, hs.le, (hgrow _ _).2⟩
  | start topic =>
    simp only [step] at h
    split at h
    · cases h
      exact ⟨hs.committed, fun _ => Nat.le_refl _, hs.committed⟩
    · cases h
  | poll records =>
    simp only [step] at h
    split at h
    · next topic counts hphase =>
      obtain ⟨-, -, h⟩ := Option.bind_eq_some_iff.mp h
      obtain ⟨⟨ms, position⟩, htake, h⟩ := Option.bind_eq_some_iff.mp h
      have hb := hs.phase
      rw [hphase] at hb
      dsimp only at h
      split at h
      · cases h
        exact ⟨hs.committed, hs.le, trivial⟩
      · cases h
        have hhanded := handed_of_take htake
        exact ⟨hs.committed, fun p => (hs.le p).trans (hhanded.le p),
          owes_drain hb hhanded (message_of_take htake)⟩
    · cases h
  | answer x index => exact sound_answer hs h
  | next =>
    simp only [step] at h
    split at h
    · next topic counts hphase =>
      cases h
      have hp := hs.phase
      rw [hphase] at hp
      exact ⟨hs.committed, hs.le, hp⟩
    · cases h
      exact ⟨hs.committed, hs.le, trivial⟩
    · cases h
  | crash =>
    cases h
    exact ⟨hs.committed, hs.le, trivial⟩
  | rebalance p =>
    cases h
    have hupdate : ∀ q, s.committed q ≤ Function.update s.position p (s.committed p) q ∧
        Function.update s.position p (s.committed p) q ≤ s.position q := by
      intro q
      by_cases hq : q = p
      · rw [hq, Function.update_self]
        exact ⟨Nat.le_refl _, hs.le p⟩
      · rw [Function.update_of_ne hq]
        exact ⟨hs.le q, Nat.le_refl _⟩
    exact ⟨hs.committed, fun q => (hupdate q).1, hs.phase.mono .refl fun q => (hupdate q).2⟩

/-- What is put somewhere comes from there. -/
theorem Traced.entries_put (hs : Traced s) {written : List Place} {parkings : List Parking}
    {republished : List Place} (hw : s.written ⊆ written) (hk : s.parkings ⊆ parkings)
    (hr : s.republished ⊆ republished)
    (hnew : free s.logs p ∈ written ∨ (∃ k ∈ parkings, k.place = free s.logs p) ∨
      free s.logs p ∈ republished) :
    ∀ place b', body (put s.logs p b) place = some b' →
      place ∈ written ∨ (∃ k ∈ parkings, k.place = place) ∨ place ∈ republished := by
  intro place b' hb
  rw [body_put] at hb
  split at hb
  · next heq =>
    rw [heq]
    exact hnew
  · rcases hs.entries place b' hb with hmem | ⟨k, hmem, hplace⟩ | hmem
    · exact .inl (hw hmem)
    · exact .inr (.inl ⟨k, hk hmem, hplace⟩)
    · exact .inr (.inr (hr hmem))

theorem Traced.parked_grown (hs : Traced s) (hg : Grown s.logs logs') :
    ∀ k ∈ s.parkings, body logs' k.place = some k.body ∧
      k.place.1.topic = k.message.partition.topic ++ ".dlq" ∧
      logs'.message k.message.partition k.message.offset = some k.message := by
  intro k hk
  obtain ⟨hbody, htopic, hmessage⟩ := hs.parked k hk
  exact ⟨hg _ _ hbody, htopic, message_grown hg hmessage⟩

theorem Traced.clean_grown (hs : Traced s) (hg : Grown s.logs logs') :
    ∀ place ∈ s.republished, ∃ b, body logs' place = some b ∧ Clean b.headers := by
  intro place hplace
  obtain ⟨b, hb, hclean⟩ := hs.clean place hplace
  exact ⟨b, hg _ _ hb, hclean⟩

theorem Traced.sent_grown (hs : Traced s) (hg : Grown s.logs logs') (hr : Sent s.history r) :
    ∃ place ∈ s.republished, place.1.topic = r.topic ∧
      body logs' place = some ⟨r.value, r.key, r.headers⟩ := by
  obtain ⟨place, hplace, htopic, hb⟩ := hs.sent r hr
  exact ⟨place, hplace, htopic, hg _ _ hb⟩

theorem body_put_free : body (put logs p b) (free logs p) = some b := by
  rw [body_put, if_pos rfl]

theorem traced_publish (hs : Traced s) {o : Option (Partition × Body)}
    (ho : ∀ e ∈ o, Clean e.2.headers) : Traced (s.publish o) := by
  cases o with
  | none => exact hs
  | some e =>
    obtain ⟨p, b⟩ := e
    refine ⟨hs.entries_put (fun _ h => h) (fun _ h => h) (List.subset_cons_self _ _)
      (.inr (.inr List.mem_cons_self)), hs.parked_grown grown_put, ?_, fun r hr => ?_, hs.skips⟩
    · intro place hplace
      rcases List.mem_cons.mp hplace with rfl | hplace
      · exact ⟨b, body_put_free, ho _ rfl⟩
      · exact hs.clean_grown grown_put place hplace
    · obtain ⟨place, hplace, h⟩ := hs.sent_grown grown_put hr
      exact ⟨place, List.mem_cons_of_mem _ hplace, h⟩

/-- Of what is answered, the acknowledged records are on their topics, and what is logged is right. -/
theorem traced_answer (hsound : Sound s) (hs : Traced s) (h : step s (.answer x index) = some t) :
    Traced t := by
  obtain ⟨topic, p, rest, hphase, hx, hack, rfl⟩ := answer_of_step h
  have hp := hsound.phase
  rw [hphase] at hp
  have hdue : Due s.logs s.position s.history x.1 := (Holds.answer hp hx).1
  have hhistory : (s.publish (sent x index)).history = s.history := by
    cases sent x index <;> rfl
  have hpublish : Traced (s.publish (sent x index)) := by
    refine traced_publish hs fun e he => ?_
    obtain ⟨o, res⟩ := x
    cases o with
    | skip m line | commit => cases he
    | send r =>
      obtain ⟨place, b, -, hv⟩ := hdue
      cases index with
      | none => cases he
      | some i =>
        obtain rfl := Option.some.inj he
        exact clean_of_replayOf hv
  refine ⟨hpublish.entries, hpublish.parked, hpublish.clean, fun r hr => ?_, fun m line hm => ?_⟩
  · rcases List.mem_cons.mp hr with rfl | hr
    · obtain ⟨i, rfl⟩ := Option.isSome_iff_exists.mp (hack rfl)
      exact ⟨free s.logs ⟨r.topic, i⟩, List.mem_cons_self, rfl, body_put_free⟩
    · exact hpublish.sent r (hhistory.symm ▸ hr)
  · rcases List.mem_cons.mp hm with rfl | hm
    · exact hdue
    · exact hs.skips m line hm

theorem traced_step (hsound : Sound s) (hs : Traced s) (h : step s l = some t) : Traced t := by
  cases l with
  | write p b =>
    cases h
    exact ⟨hs.entries_put (List.subset_cons_self _ _) (fun _ h => h) (fun _ h => h)
      (.inl List.mem_cons_self), hs.parked_grown grown_put, hs.clean_grown grown_put,
      fun r hr => hs.sent_grown grown_put hr, hs.skips⟩
  | park p offset error attempts failedAt i =>
    obtain ⟨m, hm, rfl⟩ := park_of_step h
    refine ⟨hs.entries_put (fun _ h => h) (List.subset_cons_self _ _) (fun _ h => h)
      (.inr (.inl ⟨_, List.mem_cons_self, rfl⟩)), fun k hk => ?_, hs.clean_grown grown_put,
      fun r hr => hs.sent_grown grown_put hr, hs.skips⟩
    rcases List.mem_cons.mp hk with rfl | hk
    · obtain ⟨hbody, rfl, rfl⟩ := message_eq_some.mp hm
      exact ⟨body_put_free, rfl, message_grown grown_put hm⟩
    · exact hs.parked_grown grown_put k hk
  | answer x index => exact traced_answer hsound hs h
  | start | poll | next | crash | rebalance =>
    obtain ⟨position, phase, returned, rfl⟩ := still_of_step h trivial
    exact ⟨hs.entries, hs.parked, hs.clean, hs.sent, hs.skips⟩

theorem sound_traced_of_run {ls : List Label} (h : Run step Always .start ls s) :
    Sound s ∧ Traced s := by
  have hbelow : Below System.start.logs (fun _ => 0) [] := fun _ _ hi => absurd hi (Nat.not_lt_zero _)
  have hstart : Sound .start ∧ Traced .start := by
    refine ⟨⟨hbelow, fun _ => Nat.le_refl _, trivial⟩, ?_, ?_, ?_, ?_, ?_⟩
    · intro place b hb
      cases hb
    · intro k hk
      cases hk
    · intro place hplace
      cases hplace
    · intro r hr
      cases hr
    · intro m line hm
      cases hm
  exact h.invariant (I := fun s => Sound s ∧ Traced s) hstart
    fun _ _ _ hI _ hs => ⟨sound_step hI.1 hs, traced_step hI.1 hI.2 hs⟩

/-! ### Rounds -/

/-- An application has written the body on the topic. -/
def Original (s : System) (topic : String) (b : Body) : Prop :=
  ∃ place ∈ s.written, place.1.topic = topic ∧ body s.logs place = some b

/-- Applications write no source topic, and what is parked has no header `dlq.*`. -/
def Ordinary (s : System) : Label → Prop
  | .write _ b => header b.headers "dlq.source.topic" = none
  | .park p offset _ _ _ _ => ∀ m, s.logs.message p offset = some m → Clean m.headers
  | _ => True

/-- What is parked or republished goes back to what an application has written. -/
structure Rooted (s : System) : Prop where
  written : ∀ place ∈ s.written, ∃ b, body s.logs place = some b ∧
    header b.headers "dlq.source.topic" = none
  parked : ∀ k ∈ s.parkings, Clean k.message.headers ∧
    Original s k.message.partition.topic k.message.toBody
  republished : ∀ place ∈ s.republished, ∃ b, body s.logs place = some b ∧
    Original s place.1.topic b

theorem Original.mono {topic : String} (h : Original s topic b) (hg : Grown s.logs t.logs)
    (hw : s.written ⊆ t.written) : Original t topic b := by
  obtain ⟨place, hplace, htopic, hb⟩ := h
  exact ⟨place, hw hplace, htopic, hg _ _ hb⟩

theorem source_isStamp : isStamp "dlq.source.topic" = true := by decide +kernel

/-- What the replay may send has been written on that topic. -/
theorem original_of_replayOf (hs : Traced s) (hr : Rooted s) (hb : body s.logs place = some b)
    (hv : replayOf b = .send r) : Original s r.topic ⟨r.value, r.key, r.headers⟩ := by
  have hsource : header b.headers "dlq.source.topic" ≠ none := fun hnone => by
    rw [replayOf_of_none hnone] at hv
    cases hv
  rcases hs.entries place b hb with hmem | ⟨k, hk, rfl⟩ | hmem
  · obtain ⟨b', hb', hnone⟩ := hr.written place hmem
    obtain rfl := Option.some.inj (hb.symm.trans hb')
    exact absurd hnone hsource
  · obtain ⟨hclean, horiginal⟩ := hr.parked k hk
    obtain rfl := Option.some.inj ((hs.parked k hk).1.symm.trans hb)
    rw [Parking.body, replayOf_stamped, clean_eq hclean] at hv
    split at hv
    · cases hv
    · obtain rfl := Verdict.send.inj hv
      exact horiginal
  · obtain ⟨b', hb', hclean⟩ := hs.clean place hmem
    obtain rfl := Option.some.inj (hb.symm.trans hb')
    exact absurd (header_eq_none hclean source_isStamp) hsource

/-- A message without stamps has been written on its topic. -/
theorem original_of_clean (hs : Traced s) (hr : Rooted s) (hb : body s.logs place = some b)
    (hclean : Clean b.headers) : Original s place.1.topic b := by
  rcases hs.entries place b hb with hmem | ⟨k, hk, rfl⟩ | hmem
  · exact ⟨place, hmem, rfl, hb⟩
  · obtain rfl := Option.some.inj ((hs.parked k hk).1.symm.trans hb)
    exact absurd hclean not_clean
  · obtain ⟨b', hb', horiginal⟩ := hr.republished place hmem
    obtain rfl := Option.some.inj (hb.symm.trans hb')
    exact horiginal

/-- Where topics only grow, what has its root keeps it. -/
theorem Rooted.grow (hr : Rooted s) (hg : Grown s.logs t.logs)
    (hw : ∀ place ∈ t.written, place ∈ s.written ∨
      ∃ b, body t.logs place = some b ∧ header b.headers "dlq.source.topic" = none)
    (hsub : s.written ⊆ t.written)
    (hk : ∀ k ∈ t.parkings, k ∈ s.parkings ∨ Clean k.message.headers ∧
      Original s k.message.partition.topic k.message.toBody)
    (hp : ∀ place ∈ t.republished, place ∈ s.republished ∨
      ∃ b, body t.logs place = some b ∧ Original s place.1.topic b) : Rooted t := by
  refine ⟨fun place hplace => ?_, fun k hk' => ?_, fun place hplace => ?_⟩
  · rcases hw place hplace with hmem | hnew
    · obtain ⟨b, hb, hnone⟩ := hr.written place hmem
      exact ⟨b, hg _ _ hb, hnone⟩
    · exact hnew
  · have hparked := (hk k hk').elim (hr.parked k) id
    exact hparked.imp_right fun h => h.mono hg hsub
  · have hmem : ∃ b, body t.logs place = some b ∧ Original s place.1.topic b := by
      rcases hp place hplace with hmem | hnew
      · obtain ⟨b, hb, horiginal⟩ := hr.republished place hmem
        exact ⟨b, hg _ _ hb, horiginal⟩
      · exact hnew
    obtain ⟨b, hb, horiginal⟩ := hmem
    exact ⟨b, hb, horiginal.mono hg hsub⟩

theorem rooted_answer (hsound : Sound s) (hs : Traced s) (hr : Rooted s)
    (h : step s (.answer x index) = some t) : Rooted t := by
  obtain ⟨topic, p, rest, hphase, hx, -, rfl⟩ := answer_of_step h
  have hp := hsound.phase
  rw [hphase] at hp
  have hdue : Due s.logs s.position s.history x.1 := (Holds.answer hp hx).1
  have hg : Grown s.logs (s.publish (sent x index)).logs := publish_logs_grown
  have hwritten : (s.publish (sent x index)).written = s.written := by cases sent x index <;> rfl
  have hparkings : (s.publish (sent x index)).parkings = s.parkings := by
    cases sent x index <;> rfl
  refine hr.grow hg (fun place hplace => .inl (hwritten ▸ hplace)) (hwritten ▸ fun _ hx => hx)
    (fun k hk => .inl (hparkings ▸ hk)) ?_
  obtain ⟨o, res⟩ := x
  cases o with
  | skip m line | commit => exact fun place hplace => .inl hplace
  | send r =>
    cases index with
    | none => exact fun place hplace => .inl hplace
    | some i =>
      intro place hplace
      rcases List.mem_cons.mp hplace with rfl | hplace
      · obtain ⟨place, b, hb, hv⟩ := hdue
        exact .inr ⟨_, body_put_free, original_of_replayOf hs hr hb hv⟩
      · exact .inl hplace

theorem rooted_step (hsound : Sound s) (hs : Traced s) (hr : Rooted s) (hok : Ordinary s l)
    (h : step s l = some t) : Rooted t := by
  cases l with
  | write p b =>
    cases h
    refine hr.grow grown_put (fun place hplace => ?_) (List.subset_cons_self _ _)
      (fun _ hk => .inl hk) fun _ hplace => .inl hplace
    rcases List.mem_cons.mp hplace with rfl | hplace
    · exact .inr ⟨b, body_put_free, hok⟩
    · exact .inl hplace
  | park p offset error attempts failedAt i =>
    obtain ⟨m, hm, rfl⟩ := park_of_step h
    refine hr.grow grown_put (fun _ hplace => .inl hplace) (fun _ h => h) (fun k hk => ?_)
      fun _ hplace => .inl hplace
    rcases List.mem_cons.mp hk with rfl | hk
    · have hclean : Clean m.headers := hok m hm
      obtain ⟨hbody, rfl, rfl⟩ := message_eq_some.mp hm
      exact .inr ⟨hclean, original_of_clean hs hr hbody hclean⟩
    · exact .inl hk
  | answer x index => exact rooted_answer hsound hs hr h
  | start | poll | next | crash | rebalance =>
    obtain ⟨position, phase, returned, rfl⟩ := still_of_step h trivial
    exact ⟨hr.written, hr.parked, hr.republished⟩

theorem rooted_of_run {ls : List Label} (h : Run step Ordinary .start ls s) : Rooted s := by
  have hstart : Rooted .start := by
    refine ⟨fun _ hmem => ?_, fun _ hmem => ?_, fun _ hmem => ?_⟩ <;> cases hmem
  have hall : Sound s ∧ Traced s ∧ Rooted s := by
    refine h.invariant (I := fun s => Sound s ∧ Traced s ∧ Rooted s) ?_ ?_
    · obtain ⟨hsound, htraced⟩ := sound_traced_of_run (.nil : Run step Always .start [] .start)
      exact ⟨hsound, htraced, hstart⟩
    · rintro s l t ⟨hsound, htraced, hr⟩ hok hs
      exact ⟨sound_step hsound hs, traced_step hsound htraced hs, rooted_step hsound htraced hr hok hs⟩
  exact hall.2.2

/-! ### Nothing is lost -/

/-- **Parking and replaying lose nothing**, whatever fails or crashes, and over any number of
rounds: below the committed offsets everything parked has been put back on its topic as it was, but
for the SerdeErrors; what is parked has one fresh set of stamps; and what applications have written
is what is parked. -/
theorem replay_lossless {ls : List Label} (h : Run step Always .start ls s) :
    (∀ k ∈ s.parkings, Clean k.message.headers → k.place.2 < s.committed k.place.1 →
      k.error.type ≠ "SerdeError" → ∃ place ∈ s.republished,
        place.1.topic = k.message.partition.topic ∧ body s.logs place = some k.message.toBody) ∧
    (∀ k ∈ s.parkings, Clean k.message.headers ∨
        (k.message.partition, k.message.offset) ∈ s.republished →
      body s.logs k.place = some ⟨k.message.value, k.message.key, k.message.headers ++
        dlqStamps k.message k.error k.attempts k.failedAt⟩ ∧ Clean k.message.headers ∧
      k.body.headers.filter (fun x => isStamp x.1) =
        dlqStamps k.message k.error k.attempts k.failedAt) ∧
    ((∀ m, Skipped s.history m → header m.headers "dlq.source.topic" = none ∨
        decode ((header m.headers "dlq.error.type").getD []) = some "SerdeError") ∧
      (∀ p i, i < s.committed p → ∃ m, s.logs.message p i = some m ∧
        (Skipped s.history m ∨ ∃ r, replayOf m.toBody = .send r ∧ Sent s.history r) ∧
        (Skipped s.history m ↔ header m.headers "dlq.source.topic" = none ∨
          decode ((header m.headers "dlq.error.type").getD []) = some "SerdeError")) ∧
      ∀ k ∈ s.parkings, k.place.2 < s.committed k.place.1 →
        (Skipped s.history ⟨k.body, k.place.1, k.place.2⟩ ↔ k.error.type = "SerdeError")) ∧
    (Run step Ordinary .start ls s → ∀ k ∈ s.parkings,
      Original s k.message.partition.topic k.message.toBody) := by
  obtain ⟨hsound, hs⟩ := sound_traced_of_run h
  have hskipped : ∀ m, Skipped s.history m → header m.headers "dlq.source.topic" = none ∨
      decode ((header m.headers "dlq.error.type").getD []) = some "SerdeError" := by
    rintro m ⟨line, hm⟩
    exact skip_iff.mp ⟨line, hs.skips m line hm⟩
  -- what is below the committed offsets, by what it tells
  have hbelow : ∀ p i, i < s.committed p → ∃ m, s.logs.message p i = some m ∧
      (Skipped s.history m ∨ ∃ r, replayOf m.toBody = .send r ∧ Sent s.history r) := by
    intro p i hi
    obtain ⟨m, hm, hsettled⟩ := hsound.committed p i hi
    refine ⟨m, hm, ?_⟩
    unfold Settled at hsettled
    split at hsettled
    · exact .inl ⟨_, hsettled⟩
    · next r hv => exact .inr ⟨r, hv, hsettled⟩
    · exact hsettled.elim
  have hparked : ∀ k ∈ s.parkings, k.place.2 < s.committed k.place.1 →
      Skipped s.history ⟨k.body, k.place.1, k.place.2⟩ ∨
        ∃ r, replayOf k.body = .send r ∧ Sent s.history r := by
    intro k hk hlt
    obtain ⟨m, hm, hsettled⟩ := hbelow _ _ hlt
    rw [message_eq, (hs.parked k hk).1] at hm
    obtain rfl := Option.some.inj hm
    exact hsettled
  refine ⟨fun k hk hclean hlt hne => ?_, fun k hk hor => ?_, ⟨hskipped, fun p i hi => ?_,
    fun k hk hlt => ⟨?_, fun heq => ?_⟩⟩, fun hrun k hk => ((rooted_of_run hrun).parked k hk).2⟩
  · have hv : replayOf k.body = .send ⟨k.message.partition.topic, k.message.value, k.message.key,
        k.message.headers⟩ := by
      rw [Parking.body, replayOf_stamped, if_neg hne, clean_eq hclean]
    rcases hparked k hk hlt with ⟨line, hskip⟩ | ⟨r, hr, hsent⟩
    · exact Verdict.noConfusion ((hs.skips _ _ hskip).symm.trans hv)
    · obtain rfl := Verdict.send.inj (hr.symm.trans hv)
      exact hs.sent _ hsent
  · have hclean : Clean k.message.headers := by
      refine hor.elim id fun hmem => ?_
      obtain ⟨b, hb, hclean⟩ := hs.clean _ hmem
      obtain ⟨hbody, -, -⟩ := message_eq_some.mp (hs.parked k hk).2.2
      obtain rfl := Option.some.inj (hb.symm.trans hbody)
      exact hclean
    exact ⟨(hs.parked k hk).1, hclean, filter_stamps hclean⟩
  · obtain ⟨m, hm, hsettled⟩ := hbelow p i hi
    refine ⟨m, hm, hsettled, hskipped m, fun hv => ?_⟩
    refine hsettled.resolve_right ?_
    rintro ⟨r, hr, -⟩
    obtain ⟨line, hline⟩ := skip_iff.mpr hv
    exact Verdict.noConfusion (hline.symm.trans hr)
  · rintro ⟨line, hskip⟩
    by_contra hne
    have hv := hs.skips _ _ hskip
    rw [show (Message.toBody ⟨k.body, k.place.1, k.place.2⟩) = k.body from rfl, Parking.body,
      replayOf_stamped, if_neg hne] at hv
    cases hv
  · refine (hparked k hk hlt).resolve_right ?_
    rintro ⟨r, hr, -⟩
    rw [Parking.body, replayOf_stamped, if_pos heq] at hr
    cases hr

/-! ### Two rounds -/

def orderBody : Body := ⟨some [1], none, [("traceparent", some [7])]⟩

def outage : Failure := ⟨"ConnectionError", "refused"⟩

def resend : Label :=
  .answer ⟨.send ⟨"order.events", some [1], none, [("traceparent", some [7])]⟩, .ok ()⟩ (some 0)

/-- A message is parked, replayed, and parked and replayed again, where the first run is killed
before it commits. -/
def twoRounds : List Label :=
  [.write orders orderBody, .park orders 0 outage 5 "noon" 0, .start "order.events.dlq",
    .poll [(⟨"order.events.dlq", 0⟩, 1)], resend, .crash, .park orders 1 outage 5 "one" 0,
    .start "order.events.dlq", .poll [(⟨"order.events.dlq", 0⟩, 2)], resend, resend,
    .answer ⟨.commit, .done⟩ none, .next, .poll []]

theorem replay_lossless_twoRounds : ∃ s, Run step Always .start twoRounds s ∧
    (s.parkings.length = 2 ∧ s.committed ⟨"order.events.dlq", 0⟩ = 2 ∧ s.returned = some (2, 0)) ∧
    ∀ k ∈ s.parkings, Clean k.message.headers → k.place.2 < s.committed k.place.1 →
      k.error.type ≠ "SerdeError" → ∃ place ∈ s.republished,
        place.1.topic = k.message.partition.topic ∧ body s.logs place = some k.message.toBody := by
  obtain ⟨s, hrun, hp⟩ : ∃ s, Run step Always .start twoRounds s ∧
      decide (s.parkings.length = 2 ∧ s.committed ⟨"order.events.dlq", 0⟩ = 2 ∧
        s.returned = some (2, 0)) = true :=
    exists_run_of_execOk (by decide +kernel)
  exact ⟨s, hrun, of_decide_eq_true hp, (replay_lossless hrun).1⟩

end Replay

end Kafka
