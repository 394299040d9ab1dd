/-
The outbox, and the poller that brings it to Kafka.

* `Row`, `Stored` — an event, and its row with the number of its commit;
* `World`, `Label` — writers that read the clock, lock an aggregate, stage and commit; and one
  poller, whose sends can fail and which can crash;
* `step` — `drain_once` is `select`, as many `send`s as the batch has rows, and `mark`;
* `Timely` — when a batch is selected, no event is behind an earlier one of its aggregate that is yet
  to be sent.

A writer reads any clock, and any number of times.  The bodies of events are of any type, and writers
have any names.  What a broken-off send has done is part of its label.
-/
import SmartFoodOps.Lib.Dict
import SmartFoodOps.Lib.Machine
import Mathlib.Data.Prod.Lex
import Mathlib.Data.String.Basic
import Mathlib.Logic.Function.Basic

open Machine Keyed

namespace Outbox

/-! ### Rows -/

structure Aggregate where
  type : String
  id : String
  deriving DecidableEq

variable {π τ : Type} [DecidableEq τ]

/-- An event; its record is keyed by its aggregate. -/
structure Row (π : Type) where
  id : String
  aggregate : Aggregate
  body : π
  occurredAt : ℕ
  deriving DecidableEq

/-- A committed row, with the number of the transaction that committed it. -/
structure Stored (π : Type) extends Row π where
  commit : ℕ
  published : Bool
  deriving DecidableEq

/-- `ORDER BY occurred_at, id`. -/
def Row.stamp (row : Row π) : ℕ ×ₗ String := toLex (row.occurredAt, row.id)

abbrev Rows (π : Type) := Table (Stored π) String fun row => row.id

/-! ### States -/

/-- A transaction that is open, with the clock value that it read. -/
structure Writer (π : Type) where
  now : ℕ
  staged : List (Row π)

/-- A batch that is being sent. -/
structure Pass (π : Type) where
  done : List (Row π)
  todo : List (Row π)

structure World (π τ : Type) where
  outbox : Rows π
  /-- How many transactions were committed. -/
  commits : ℕ
  writers : τ → Option (Writer π)
  /-- Who has written an aggregate and not committed. -/
  locks : Aggregate → Option τ
  pass : Option (Pass π)
  /-- What has reached Kafka, the oldest first. -/
  wire : List (Row π)

def World.init : World π τ := ⟨.empty, 0, fun _ => none, fun _ => none, none, []⟩

inductive Label (π τ : Type)
  /-- A writer reads the clock and begins; it can read the clock again. -/
  | begin (t : τ) (now : ℕ)
  | clock (t : τ) (now : ℕ)
  /-- Its write of an aggregate, which waits for whoever has written it. -/
  | lock (t : τ) (a : Aggregate)
  /-- `stage_event`. -/
  | stage (t : τ) (id : String) (a : Aggregate) (body : π)
  | commit (t : τ)
  | abort (t : τ)
  | select
  | send
  /-- A send that raises, with or without having reached Kafka. -/
  | fail (reached : Bool)
  /-- The poller stops, or its commit fails. -/
  | stop
  | mark

/-- The labels of the poller. -/
def Label.polls : Label π τ → Bool
  | .select | .send | .fail _ | .stop | .mark => true
  | _ => false

namespace World

variable (w : World π τ)

def unpublished : List (Stored π) := w.outbox.rows.filter fun e => ! e.published

/-- The staged rows of a transaction, as it commits them. -/
def committing (wr : Writer π) : List (Stored π) :=
  wr.staged.map fun row => ⟨row, w.commits, false⟩

/-- A transaction is over, and its locks are free. -/
def close (t : τ) : World π τ :=
  { w with
    writers := Function.update w.writers t none
    locks := fun a => if w.locks a = some t then none else w.locks a }

/-- The rows of a batch have been published. -/
def publish (batch : List (Row π)) : World π τ :=
  { w with
    outbox := w.outbox.updateWhere (fun e => e.id ∈ batch.map Row.id)
      (fun e => { e with published := true }) fun _ => rfl }

end World

/-! ### Steps -/

def step (batchSize : ℕ) (w : World π τ) : Label π τ → Option (World π τ)
  | .begin t now =>
    if w.writers t = none then
      some { w with writers := Function.update w.writers t (some ⟨now, []⟩) }
    else none
  | .clock t now =>
    (w.writers t).map fun wr =>
      { w with writers := Function.update w.writers t (some { wr with now := now }) }
  | .lock t a =>
    (w.writers t).bind fun _ =>
      if w.locks a = none ∨ w.locks a = some t then
        some { w with locks := Function.update w.locks a (some t) }
      else none
  | .stage t id a body =>
    (w.writers t).bind fun wr =>
      if w.locks a = some t then
        some { w with
          writers := Function.update w.writers t
            (some { wr with staged := wr.staged ++ [⟨id, a, body, wr.now⟩] }) }
      else none
  | .commit t =>
    (w.writers t).bind fun wr =>
      -- identifiers are drawn at random, and tell the rows apart
      if h : ((w.committing wr ++ w.outbox.rows).map fun e => e.id).Nodup then
        some { w.close t with outbox := ⟨w.committing wr ++ w.outbox.rows, h⟩,
                              commits := w.commits + 1 }
      else none
  | .abort t => (w.writers t).map fun _ => w.close t
  | .select =>
    if w.pass.isNone then
      match earliest (fun e => e.stamp) batchSize w.unpublished with
      | [] => some w
      | rows => some { w with pass := some ⟨[], rows.map Stored.toRow⟩ }
    else none
  | .send =>
    w.pass.bind fun pass => match pass.todo with
      | [] => none
      | row :: todo =>
        some { w with pass := some ⟨pass.done ++ [row], todo⟩, wire := w.wire ++ [row] }
  | .fail reached =>
    w.pass.bind fun pass => match pass.todo with
      | [] => none
      | row :: _ => some { w with pass := none, wire := if reached then w.wire ++ [row] else w.wire }
  | .stop => w.pass.map fun _ => { w with pass := none }
  | .mark =>
    w.pass.bind fun pass => match pass.todo with
      | [] => some { w.publish pass.done with pass := none }
      | _ => none

/-- Of the events of an aggregate that a select finds unsent, those of earlier commits come first. -/
def Timely (w : World π τ) : Label π τ → Prop
  | .select => ∀ e ∈ w.outbox.rows, ∀ old ∈ w.outbox.rows, old.aggregate = e.aggregate →
      old.commit < e.commit → old.toRow ∉ w.wire → old.stamp < e.stamp
  | _ => True

instance [DecidableEq π] (w : World π τ) (i : Label π τ) : Decidable (Timely w i) :=
  match i with
  | .select => inferInstanceAs (Decidable (∀ e ∈ w.outbox.rows, ∀ old ∈ w.outbox.rows, _))
  | .begin _ _ | .clock _ _ | .lock _ _ | .stage _ _ _ _ | .commit _ | .abort _ | .send | .fail _
  | .stop | .mark => inferInstanceAs (Decidable True)

end Outbox
