/-
A turn, from the question to its row in the database.

* `Op`, `Answer` — what a turn waits for; anything can be cancelled, and all but the database can
  fail;
* `Publisher` — `emit`, `flush`, `close`: what goes on the bus, and what has been said;
* `Database`, `inSession`, `finishMessage`, `stageInteraction`, `commit` — the row and its fact;
* `settleFailed`, `runTurn`.

An operation carries the place in the code at which it is awaited.  The graph emits its tokens and
then ends, one way or the other.  Times, metrics and logs are left out.
-/
import SmartFoodOps.Lib.Task
import SmartFoodOps.Assistant.Grounding

open Interaction

namespace Assistant

/-! ### Operations -/

/-- What is raised: `Exception`, or `CancelledError`. -/
inductive Raised
  | exception
  | cancelled
  deriving DecidableEq

/-- Where an operation is awaited: in the turn itself, in `_settle_failed`, or at the very end. -/
inductive Place
  | turn
  | settling
  | closing
  deriving DecidableEq

/-- Why a turn stopped early. -/
inductive Stopped
  | no
  | refused
  | noMatch
  deriving DecidableEq

/-- `TurnState`, as far as it is read when the graph has ended. -/
structure GraphState where
  answer : String := ""
  itemIds : List String := []
  restaurantIds : List String := []
  refusalReason : String := "none"
  candidates : ℕ := 0
  dropped : ℕ := 0
  stopped : Stopped := .no

/-- One payload on the bus. -/
structure Frame where
  text : String := ""
  done : Bool := false
  itemIds : List String := []

inductive CommitAnswer
  | done
  /-- Whether the database has seen it. -/
  | cancelled (applied : Bool)

inductive Op
  | ready (place : Place) (channel : String)
  | publish (place : Place) (channel : String) (frame : Frame)
  | graph
  | statement (place : Place)
  | commit (place : Place)
  | closeSession (place : Place)
  | shown (userId city : String) (itemIds : List String)

def Op.place : Op → Place
  | .ready place _ | .publish place _ _ | .statement place | .commit place | .closeSession place =>
    place
  | .graph | .shown _ _ _ => .turn

abbrev Answer : Op → Type
  | .ready _ _ | .publish _ _ _ | .shown _ _ _ => Except Raised Unit
  | .graph => Except Raised GraphState
  /- whether it was cancelled -/
  | .statement _ | .closeSession _ => Bool
  | .commit _ => CommitAnswer

abbrev Op.Value : Op → Type
  | .graph => GraphState
  | _ => Unit

/-- What an answer raises, or returns. -/
def Op.result : (o : Op) → Answer o → Except Raised o.Value
  | .ready _ _, r | .publish _ _ _, r | .shown _ _ _, r => r
  | .graph, r => r
  | .statement _, cancelled | .closeSession _, cancelled =>
    if cancelled then .error .cancelled else .ok ()
  | .commit _, .done => .ok ()
  | .commit _, .cancelled _ => .error .cancelled

/-- A commit that the database has seen. -/
def lands : Sigma Answer → Bool
  | ⟨.commit _, .done⟩ => true
  | ⟨.commit _, .cancelled applied⟩ => applied
  | _ => false

/-! ### Memory -/

structure Publisher where
  waited : Bool := false
  stripper : Stripper := {}
  /-- What the reader has been sent. -/
  text : List String := []

inductive Status
  | streaming
  | complete
  | failed
  deriving DecidableEq

/-- A row of `messages`. -/
structure MessageRow where
  content : String
  status : Status
  itemIds : List String
  deriving DecidableEq

/-- The payload of an interaction. -/
structure Fact where
  messageId : String
  conversationId : String
  userId : String
  city : String
  outcome : String
  refusalReason : String
  itemIds : List String
  restaurantIds : List String
  candidates : ℕ
  ungrounded : ℕ
  deriving DecidableEq

/-- What a transaction writes: the turn's row, and facts for the outbox. -/
structure Transaction where
  message : Option MessageRow := none
  facts : List Fact := []
  deriving DecidableEq

structure Database where
  message : MessageRow
  facts : List Fact
  /-- The transactions that were committed, the oldest first. -/
  commits : List Transaction

/-- The turn's row has been inserted. -/
def Database.started : Database := ⟨⟨"", .streaming, []⟩, [], []⟩

def Database.apply (db : Database) (t : Transaction) : Database where
  message := t.message.getD db.message
  facts := db.facts ++ t.facts
  commits := db.commits ++ [t]

structure Memory where
  publisher : Publisher := {}
  itemIds : List String := []
  db : Database := .started
  transaction : Transaction := {}

/-- What a turn is about; a turn need not wait for readers, nor record what it has shown. -/
structure Turn where
  messageId : String
  conversationId : String
  userId : String
  city : String
  awaitsReader : Bool
  recordsShown : Bool

abbrev Coroutine (α : Type) := Task Answer Memory Raised α

namespace Coroutine

open Task

def await (o : Op) : Coroutine o.Value := Task.await o o.result

def when (c : Bool) (x : Coroutine Unit) : Coroutine Unit := if c then x else pure ()

/-! ### The publisher -/

/-- `channel_for`. -/
def channelFor (messageId : String) : String := "sfo:assist:" ++ messageId

section

variable (turn : Turn) (place : Place)

/-- `_attached`: wait for a reader, once. -/
def attached : Coroutine Unit := do
  let m ← get
  when (! m.publisher.waited) do
    modify fun m => { m with publisher := { m.publisher with waited := true } }
    when turn.awaitsReader (await (.ready place (channelFor turn.messageId)))

/-- `_write`. -/
def write (text : String) : Coroutine Unit := do
  attached turn place
  modify fun m => { m with publisher := { m.publisher with text := m.publisher.text ++ [text] } }
  await (.publish place (channelFor turn.messageId) { text })

/-- The stripper has let `out` through. -/
def release (out : List Char × Stripper) : Coroutine Unit := do
  modify fun m => { m with publisher := { m.publisher with stripper := out.2 } }
  when (! out.1.isEmpty) (write turn place (String.ofList out.1))

def emit (text : String) : Coroutine Unit := do
  let m ← get
  release turn place (m.publisher.stripper.push text.toList)

def flush : Coroutine Unit := do
  let m ← get
  release turn place m.publisher.stripper.flush

/-- `Publisher.close`: the terminal frame. -/
def close (itemIds : List String) : Coroutine Unit := do
  attached turn place
  await (.publish place (channelFor turn.messageId) { done := true, itemIds })

end

/-! ### The database -/

/-- A session: what is not committed is rolled back. -/
def inSession {α : Type} (place : Place) (body : Coroutine α) : Coroutine α :=
  tryFinally (modify (fun m => { m with transaction := {} }) >>= fun _ => body)
    (await (.closeSession place))

/-- `finish_message`: only a row that is streaming is settled. -/
def finishMessage (place : Place) (row : MessageRow) : Coroutine Bool := do
  await (.statement place)
  let m ← get
  if m.db.message.status = .streaming then
    modify fun m => { m with transaction := { m.transaction with message := some row } }
    pure true
  else pure false

/-- `stage_interaction`. -/
def stageInteraction (place : Place) (fact : Fact) : Coroutine Unit := do
  await (.statement place)
  modify fun m => { m with
    transaction := { m.transaction with facts := m.transaction.facts ++ [fact] } }

def commit (place : Place) : Coroutine Unit := fun m =>
  .op (.commit place) fun r => .ret (Op.result (.commit place) r,
    if lands ⟨.commit place, r⟩ then { m with db := m.db.apply m.transaction } else m)

/-- The row is settled and, by the one who settles it, its fact is staged. -/
def settle (place : Place) (row : MessageRow) (fact : Fact) : Coroutine Bool :=
  inSession place do
    let settled ← finishMessage place row
    when settled (stageInteraction place fact)
    commit place
    pure settled

/-! ### The turn -/

def truncated : String := " …sorry, I couldn't finish that — please ask again."

def citationsOnly : String := "Here are a few dishes from the menu that match."

def unavailable : String :=
  "Sorry — I couldn't finish that answer just now. Please try again in a " ++
    "moment, or browse the menu directly."

/-- `_fact`. -/
def factOf (turn : Turn) (outcome : String) (state : GraphState) : Fact where
  messageId := turn.messageId
  conversationId := turn.conversationId
  userId := turn.userId
  city := turn.city
  outcome := outcome
  refusalReason := state.refusalReason
  itemIds := state.itemIds
  restaurantIds := state.restaurantIds
  candidates := state.candidates
  ungrounded := state.dropped

/-- The outcome of a turn whose graph has ended. -/
def outcomeOf (state : GraphState) : String :=
  match state.stopped with
  | .no => "answered"
  | .refused => "refused"
  | .noMatch => "no_match"

/-- `_settle_failed`: the reader is told, and then the row is settled. -/
def settleFailed (turn : Turn) : Coroutine Unit := do
  let m ← get
  emit turn .settling (if m.publisher.text.isEmpty then unavailable else truncated)
  flush turn .settling
  let m ← get
  let _ ← settle .settling ⟨String.join m.publisher.text, .failed, []⟩ (factOf turn "failed" {})

/-- The graph: its tokens, and how it ends. -/
def invoke (turn : Turn) : List String → Coroutine GraphState
  | [] => await .graph
  | token :: tokens => do
    emit turn .turn token
    invoke turn tokens

/-- `run_turn`, inside its `try`. -/
def answerTurn (turn : Turn) (tokens : List String) : Coroutine Unit := do
  let state ← invoke turn tokens
  modify fun m => { m with itemIds := state.itemIds }
  let m ← get
  when m.publisher.text.isEmpty
    (emit turn .turn (if state.answer.isEmpty then citationsOnly else state.answer))
  flush turn .turn
  let m ← get
  let answer := if state.answer.isEmpty then String.join m.publisher.text else state.answer
  let settled ← settle .turn ⟨answer, .complete, state.itemIds⟩
    (factOf turn (outcomeOf state) state)
  when (settled && turn.recordsShown && ! state.itemIds.isEmpty)
    (await (.shown turn.userId turn.city state.itemIds))

/-- The two `except` branches: a cancellation goes on, an exception does not. -/
def onRaised (turn : Turn) : Raised → Coroutine Unit
  | .cancelled => do
    tryCatch (settleFailed turn) fun
      | .exception => pure ()
      | .cancelled => raise .cancelled
    raise .cancelled
  | .exception => settleFailed turn

/-- `run_turn`. -/
def runTurn (turn : Turn) (tokens : List String) : Coroutine Unit :=
  tryFinally (tryCatch (answerTurn turn tokens) (onRaised turn)) do
    let m ← get
    close turn .closing m.itemIds

end Coroutine

end Assistant
