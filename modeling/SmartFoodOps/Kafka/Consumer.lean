/-
smartfood-kafka: the consumer runtime, message by message and in batches.

* `Message`, `Record` — what a topic holds, and what is produced to a dead-letter topic;
* `Op`, `Answer` — decoding, handling, producing and committing, each of which may raise;
* `park`, `process`, `handleBatch` — what happens to messages that have been handed out;
* `System`, `step` — passes that poll, run and commit, crash and rejoin.

Both handlers are one operation, on a list of events; the messages that these come from go
along, so that the history says which have been handled.  Back-off, spans and metrics are
left out.
-/
import SmartFoodOps.Lib.Interaction
import SmartFoodOps.Lib.Machine
import Mathlib.Data.Nat.Basic

open Interaction

namespace Kafka

/-! ### Topics -/

abbrev Bytes := List UInt8

def encode (s : String) : Bytes := s.toUTF8.toList

structure Partition where
  topic : String
  index : ℕ
  deriving DecidableEq

/-- What a producer has written. -/
structure Body where
  value : Option Bytes
  key : Option Bytes
  headers : List (String × Option Bytes)
  deriving DecidableEq

structure Message extends Body where
  partition : Partition
  offset : ℕ
  deriving DecidableEq

/-- The bodies of a partition, by offset. -/
abbrev Content := Partition → List Body

/-- The message of a partition at an offset. -/
def Content.message (content : Content) (p : Partition) (offset : ℕ) : Option Message :=
  (content p)[offset]?.map fun body => ⟨body, p, offset⟩

structure Record where
  topic : String
  value : Option Bytes
  key : Option Bytes
  headers : List (String × Option Bytes)
  deriving DecidableEq

/-! ### Operations -/

/-- An exception: its type, and what it says. -/
structure Failure where
  type : String
  message : String
  deriving DecidableEq

inductive DecodeError
  /-- SerdeError: the bytes are bad. -/
  | serde (error : Failure)
  /-- The registry or the transport is down. -/
  | other (error : Failure)
  deriving DecidableEq

inductive CommitResult
  | done
  /-- Whether the broker has seen it. -/
  | failed (applied : Bool) (error : Failure)
  deriving DecidableEq

variable {E : Type}

inductive Op (E : Type)
  | decode (value : Option Bytes)
  | handle (batch : List (Message × E))
  | clock
  | send (record : Record)
  | commit
  deriving DecidableEq

abbrev Answer : Op E → Type
  | .decode _ => Except DecodeError E
  | .handle _ => Except Failure Unit
  | .clock => String
  | .send _ => Except Failure Unit
  | .commit => CommitResult

abbrev Pass (E : Type) := Prog (@Answer E) Failure

namespace Pass

def decode (value : Option Bytes) : Pass E (Except DecodeError E) := Prog.call (Op.decode value)
def handle (batch : List (Message × E)) : Pass E (Except Failure Unit) := Prog.call (Op.handle batch)
def clock : Pass E String := Prog.call Op.clock
def send (record : Record) : Pass E (Except Failure Unit) := Prog.call (Op.send record)
def commit : Pass E CommitResult := Prog.call Op.commit

end Pass

/-! ### Parking -/

/-- The headers that say why. -/
def dlqStamps (m : Message) (error : Failure) (attempts : ℕ) (failedAt : String) :
    List (String × Option Bytes) :=
  [("dlq.error.type", some (encode error.type)),
    ("dlq.error.message", some (encode (String.ofList (error.message.toList.take 500)))),
    ("dlq.source.topic", some (encode m.partition.topic)),
    ("dlq.source.partition", some (encode (toString m.partition.index))),
    ("dlq.source.offset", some (encode (toString m.offset))),
    ("dlq.attempts", some (encode (toString attempts))),
    ("dlq.failed_at", some (encode failedAt))]

/-- The original message, with the stamps. -/
def parked (m : Message) (error : Failure) (attempts : ℕ) (failedAt : String) : Record where
  topic := m.partition.topic ++ ".dlq"
  value := m.value
  key := m.key
  headers := m.headers ++ dlqStamps m error attempts failedAt

def park (m : Message) (error : Failure) (attempts : ℕ) : Pass E Unit := do
  let failedAt ← Pass.clock
  match ← Pass.send (parked m error attempts failedAt) with
  | .ok () => return ()
  | .error e => .fail e

/-! ### Handling -/

/-- One event, with the attempts that are left of `maxAttempts`. -/
def attempt (maxAttempts : ℕ) (m : Message) (event : E) : ℕ → Pass E Unit
  | 0 => return ()
  | left + 1 => do
    match ← Pass.handle [(m, event)] with
    | .ok () => return ()
    | .error error =>
      if left = 0 then park m error maxAttempts else attempt maxAttempts m event left

/-- `_process`. -/
def process (maxAttempts : ℕ) (m : Message) : Pass E Unit := do
  match ← Pass.decode m.value with
  | .error (.serde error) => park m error 0
  -- not the message's fault: crash, and have it redelivered
  | .error (.other error) => .fail error
  | .ok event => attempt maxAttempts m event maxAttempts

/-- The events of a poll; what cannot be decoded is parked. -/
def assemble : List Message → Pass E (List (Message × E))
  | [] => return []
  | m :: ms => do
    match ← Pass.decode m.value with
    | .error (.serde error) => do
      park m error 0
      assemble ms
    | .error (.other error) => .fail error
    | .ok event => do
      let batch ← assemble ms
      return (m, event) :: batch

/-- One event after the other. -/
def singles (maxAttempts : ℕ) : List (Message × E) → Pass E Unit
  | [] => return ()
  | (m, event) :: batch => do
    attempt maxAttempts m event maxAttempts
    singles maxAttempts batch

/-- `_handle_batch`. -/
def handleBatch (maxAttempts : ℕ) (batch : List (Message × E)) : Pass E Unit := do
  match ← Pass.handle batch with
  | .ok () => return ()
  | .error _ => singles maxAttempts batch

def commit : Pass E Unit := do
  match ← Pass.commit with
  | .done => return ()
  | .failed _ error => .fail error

/-! ### Passes -/

inductive Mode
  /-- `run` -/
  | single
  /-- `run_batches` -/
  | batches
  deriving DecidableEq

structure Config where
  mode : Mode
  maxAttempts : ℕ
  attempts_pos : 0 < maxAttempts

/-- What a pass does with the messages that it has been handed. -/
def Config.body (c : Config) (ms : List Message) : Option (Pass E Unit) :=
  match c.mode, ms with
  | .single, [m] => some do
    process c.maxAttempts m
    commit
  -- an iterator hands out one message, and an empty poll is no poll
  | .single, _ | .batches, [] => none
  | .batches, ms => some do
    let batch ← assemble ms
    if batch = [] then pure () else handleBatch c.maxAttempts batch
    commit

inductive Phase (E : Type)
  /-- Between two passes. -/
  | down
  | polling
  | working (rest : Pass E Unit)

structure System (E : Type) where
  committed : Partition → ℕ
  /-- After the last message that has been handed out. -/
  position : Partition → ℕ
  /-- What has been answered, newest first. -/
  history : History (@Answer E)
  phase : Phase E

def System.start : System E := ⟨fun _ => 0, fun _ => 0, [], .down⟩

inductive Label (E : Type)
  /-- A new client joins the group. -/
  | join
  /-- So many messages of these partitions are handed out. -/
  | poll (records : List (Partition × ℕ))
  /-- The operation that is due is answered. -/
  | answer (x : Sigma (@Answer E))
  /-- The pass has been through with its messages, or an exception ends it. -/
  | next
  /-- The process is killed, or cancelled. -/
  | crash
  /-- The group takes the partition away, or gives it back. -/
  | rebalance (p : Partition)

/-- Hand out messages, and move on. -/
def take (content : Content) : (Partition → ℕ) → List (Partition × ℕ) →
    Option (List Message × (Partition → ℕ))
  | position, [] => some ([], position)
  | position, (p, n) :: records =>
    if position p + n ≤ (content p).length then do
      let ms := (List.range' (position p) n).filterMap (content.message p)
      let (rest, position') ← take content (Function.update position p (position p + n)) records
      return (ms ++ rest, position')
    else none

/-- The effect of an answer on the offsets of the group. -/
def commits : Sigma (@Answer E) → Bool
  | ⟨.commit, .done⟩ => true
  | ⟨.commit, .failed applied _⟩ => applied
  | _ => false

variable [DecidableEq E]

def step (c : Config) (content : Content) (s : System E) : Label E → Option (System E)
  | .join =>
    match s.phase with
    | .down => some { s with position := s.committed, phase := .polling }
    | _ => none
  | .poll records =>
    match s.phase with
    | .polling => do
      let (ms, position) ← take content s.position records
      let pass ← c.body ms
      return { s with position := position, phase := .working pass }
    | _ => none
  | .answer x =>
    match s.phase with
    | .working p => do
      let rest ← p.answer x
      return { s with
        committed := if commits x then s.position else s.committed
        history := x :: s.history
        phase := .working rest }
    | _ => none
  | .next =>
    match s.phase with
    | .working (.ret ()) => some { s with phase := .polling }
    | .working (.fail _) => some { s with phase := .down }
    | _ => none
  | .crash => some { s with phase := .down }
  | .rebalance p => some { s with position := Function.update s.position p (s.committed p) }

end Kafka
