/-
Which model answers a task, and what happens when it does not.

* `Task`, `Route`, `defaultPolicy` — the table of the tasks;
* `Op`, `Answer`, `Raised` — the calls of providers and of the budget's store, what they answer,
  and what they raise;
* `Router.complete`, `Router.stream` — the providers of a task one after another, until one of
  them answers; a stream that has said something is not begun anew.

A stream answers with all its chunks and with how it ended: a provider does not see what is done
with them.  A timeout is a rational number.  Metrics are left out.
-/
import SmartFoodOps.Lib.Task
import SmartFoodOps.Assistant.Redaction
import Mathlib.Data.Rat.Defs

open Interaction

namespace Assistant.Generation

/-! ### Ports -/

inductive Role
  | system
  | user
  | assistant
  deriving DecidableEq

structure Message where
  role : Role
  content : String
  deriving DecidableEq

inductive FinishReason
  | stop
  | length
  | refusal
  | toolCall
  deriving DecidableEq

structure Completion where
  text : String
  finishReason : FinishReason
  model : String
  provider : String
  promptTokens : ℕ
  completionTokens : ℕ
  deriving DecidableEq

structure TokenChunk where
  text : String := ""
  done : Bool := false
  finishReason : Option FinishReason := none
  promptTokens : ℕ := 0
  completionTokens : ℕ := 0
  deriving DecidableEq

/-- The classes of exceptions that are told apart. -/
inductive Kind
  | llmUnavailable
  | llmRateLimited
  | noProviderAvailable
  | planeShed
  | budgetExceeded
  | permanentFailure
  | lookupError
  | valueError
  | other
  deriving DecidableEq

/-- An exception, and what it says. -/
structure Raised where
  kind : Kind
  text : String
  deriving DecidableEq

/-- A provider that will probably work in a minute. -/
def Raised.transient (e : Raised) : Bool := e.kind = .llmUnavailable || e.kind = .llmRateLimited

/-! ### The policy -/

inductive Task
  | classify
  | rewrite
  | rerank
  | generate
  | explain
  | contentDraft
  | summarize
  deriving DecidableEq

def Task.value : Task → String
  | .classify => "classify"
  | .rewrite => "rewrite"
  | .rerank => "rerank"
  | .generate => "generate"
  | .explain => "explain"
  | .contentDraft => "content_draft"
  | .summarize => "summarize"

structure ModelSpec where
  provider : String
  model : String
  maxOutputTokens : ℕ
  timeoutS : ℚ
  deriving DecidableEq

structure Route where
  task : Task
  maxInputTokens : ℕ
  primary : ModelSpec
  secondary : Option ModelSpec
  deriving DecidableEq

/-- The models that the settings name. -/
structure Models where
  generateModel : String
  cheapModel : String
  generateFallback : String
  cheapFallback : String
  timeoutS : ℚ

/-- `default_policy`. -/
def defaultPolicy (models : Models) (task : Task) : Route :=
  let spec (provider model : String) (out : ℕ) : ModelSpec :=
    ⟨provider, model, out, models.timeoutS⟩
  let cheap (cap out : ℕ) : Route :=
    ⟨task, cap, spec "anthropic" models.cheapModel out,
      some (spec "openai" models.cheapFallback out)⟩
  let good (cap out : ℕ) : Route :=
    ⟨task, cap, spec "anthropic" models.generateModel out,
      some (spec "openai" models.generateFallback out)⟩
  match task with
  | .classify => cheap 2000 512
  | .rewrite => cheap 2000 256
  | .rerank => cheap 12000 512
  | .generate => good 8000 1024
  | .explain => cheap 2000 384
  | .contentDraft => good 4000 1024
  | .summarize => good 16000 1024

/-! ### Operations -/

inductive Op
  /-- `LlmPort.complete`. -/
  | complete (spec : ModelSpec) (messages : List Message)
  /-- `LlmPort.stream`. -/
  | stream (spec : ModelSpec) (messages : List Message)
  | incrby (key : String) (tokens : ℕ)
  | expire (key : String) (windowS : ℕ)
  /-- A reader is sent a chunk. -/
  | emit (chunk : TokenChunk)

abbrev Answer : Op → Type
  | .complete _ _ => Except Raised Completion
  /- the chunks, and what was raised after them -/
  | .stream _ _ => List TokenChunk × Option Raised
  | .incrby _ _ => Except Raised ℕ
  | .expire _ _ | .emit _ => Except Raised Unit

/-- The prompt of a provider's call. -/
def Op.prompt : Op → Option (List Message)
  | .complete _ messages | .stream _ messages => some messages
  | _ => none

/-- The row of the draft that a worker's job is about. -/
inductive DraftStatus
  | queued
  | drafted
  | parked
  | published
  | rejected
  deriving DecidableEq

def DraftStatus.value : DraftStatus → String
  | .queued => "queued"
  | .drafted => "drafted"
  | .parked => "parked"
  | .published => "published"
  | .rejected => "rejected"

inductive FactValue
  | text (s : String)
  | items (l : List String)
  | count (n : ℤ)
  deriving DecidableEq

structure DraftRow where
  restaurantId : String
  kind : String
  targetId : Option String
  request : Option String
  /-- The facts, frozen when the draft was asked for. -/
  subject : List (String × FactValue)
  status : DraftStatus
  content : Option String
  model : Option String
  error : Option String
  deriving DecidableEq

/-- A program of the assistant; its memory is the row that it may settle. -/
abbrev Plane (α : Type) := Interaction.Task Answer (Option DraftRow) Raised α

namespace Plane

open Interaction.Task

def complete (spec : ModelSpec) (messages : List Message) : Plane Completion :=
  await (.complete spec messages) fun r => r

def stream (spec : ModelSpec) (messages : List Message) :
    Plane (List TokenChunk × Option Raised) :=
  await (.stream spec messages) .ok

def emit (chunk : TokenChunk) : Plane Unit := await (.emit chunk) fun r => r

end Plane

/-! ### The router -/

/-- `ModelRouter`; `generation` is whether it is on. -/
structure Router where
  providers : List String
  policy : Task → Route
  generation : Bool

section

variable (isWord isDigit : Char → Bool)

/-- `_scrubbed`. -/
def scrubbed (messages : List Message) : List Message :=
  messages.map fun m => { m with content := redact isWord isDigit m.content }

namespace Router

open Interaction.Task

variable (r : Router)

/-- `_shed`. -/
def shed : Plane Unit :=
  if r.generation then pure () else raise ⟨.planeShed, "generation disarmed (ladder step 2a)"⟩

def specsFor (task : Task) : List ModelSpec :=
  ((r.policy task).primary :: (r.policy task).secondary.toList).filter fun spec =>
    spec.provider ∈ r.providers

/-- `complete`, of the providers that are left. -/
def completeFrom (task : Task) (messages : List Message) : List ModelSpec → Plane Completion
  | [] => raise ⟨.noProviderAvailable, "every provider failed for task " ++ task.value⟩
  | spec :: specs => tryCatch (Plane.complete spec messages) fun e =>
    if e.transient then completeFrom task messages specs else raise e

def complete (task : Task) (messages : List Message) : Plane Completion := do
  r.shed
  match r.specsFor task with
  | [] => raise ⟨.noProviderAvailable, "no provider registered for task " ++ task.value⟩
  | spec :: specs => completeFrom task (scrubbed isWord isDigit messages) (spec :: specs)

/-- What is done with each chunk. -/
def forChunks (consume : TokenChunk → Plane Unit) : List TokenChunk → Plane Unit
  | [] => pure ()
  | chunk :: chunks => do
    consume chunk
    forChunks consume chunks

/-- `stream`, of the providers that are left; the chunks are those that were let through. -/
def streamFrom (consume : TokenChunk → Plane Unit) (task : Task) (messages : List Message) :
    List ModelSpec → Plane (List TokenChunk)
  | [] => raise ⟨.noProviderAvailable, "every provider failed for task " ++ task.value⟩
  | spec :: specs => do
    let (chunks, ending) ← Plane.stream spec messages
    forChunks consume chunks
    match ending with
    | none => pure chunks
    | some e =>
      if e.transient && ! chunks.any fun chunk => chunk.text ≠ "" then do
        let more ← streamFrom consume task messages specs
        pure (chunks ++ more)
      else raise e

def stream (consume : TokenChunk → Plane Unit) (task : Task) (messages : List Message) :
    Plane (List TokenChunk) := do
  r.shed
  match r.specsFor task with
  | [] => raise ⟨.noProviderAvailable, "no provider registered for task " ++ task.value⟩
  | spec :: specs => streamFrom consume task (scrubbed isWord isDigit messages) (spec :: specs)

end Router

end

end Assistant.Generation
