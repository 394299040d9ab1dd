/-
Live tracking: the hints that follow the commits, and the streams that relay them.

A write of the status commits, and its hint is published afterwards; a stream redeems a ticket,
reads the row, sends the snapshot, subscribes, and relays what is published from then on.

* `System`, `step` — the writers, the bus and any number of streams, one commit, publication or
  frame at a time;
* `InStep` — the hints of an order are published in the order of its commits, and none of a commit
  that a stream's read has missed is published before the stream is subscribed;
* `Follows` — the snapshot, or the last frame, and the hints to come end in the status of the row;
* `follows_of_run` — so, with no hint in flight, a stream has sent the status of the row last, and
  the stream of an order that is over has ended;
* `missed_hint` — a hint that is published between the read and the subscription is lost.
-/
import SmartFoodOps.Lib.Machine
import SmartFoodOps.Order.Transitions

open Machine
open Dispatch (OrderId)

namespace Order.Tracking

/-! ### Streams -/

/-- `TERMINAL`: a stream ends with it. -/
def terminal : OrderStatus → Bool
  | .settled | .cancelled | .refunded => true
  | _ => false

/-- What a stream yields. -/
inductive Frame
  | status (s : OrderStatus)
  | heartbeat
  | reconnect
  deriving DecidableEq

inductive Phase
  | redeemed
  /-- The row is read; `first` is to be sent. -/
  | read (first : OrderStatus)
  /-- The snapshot is sent, and the stream is not subscribed yet. -/
  | sent
  /-- Subscribed, with what was published since and is not relayed yet. -/
  | attached (queue : List OrderStatus)
  | ended
  deriving DecidableEq

structure Stream where
  orderId : OrderId
  sub : String
  phase : Phase
  /-- What was sent, the last frame first. -/
  frames : List Frame
  /-- The hints that were in flight at the read, and are not published yet. -/
  owed : ℕ
  deriving DecidableEq

def Frame.status? : Frame → Option OrderStatus
  | .status s => some s
  | _ => none

/-- The last status that was sent. -/
def Stream.last (st : Stream) : Option OrderStatus := st.frames.findSome? Frame.status?

/-- Between the read and the subscription. -/
def Stream.opening (st : Stream) : Bool :=
  match st.phase with
  | .read _ | .sent => true
  | _ => false

/-- What a publication does to a stream of the order. -/
def Stream.hear (st : Stream) (hint : OrderStatus) : Stream :=
  match st.phase with
  | .attached queue => { st with phase := .attached (queue ++ [hint]) }
  | _ => { st with owed := st.owed - 1 }

/-- A status is sent, and ends the stream if it is terminal. -/
def Stream.send (st : Stream) (s : OrderStatus) (next : Phase) : Stream :=
  { st with
    frames := .status s :: st.frames
    phase := if terminal s then .ended else next }

/-! ### The system -/

structure System where
  rows : OrderId → Option OrderRow
  /-- The hints that are committed and not published, in the order of their commits. -/
  pending : OrderId → List OrderStatus
  /-- The orders and the customers that the tickets out are for. -/
  tickets : String → Option (OrderId × String)
  streams : List Stream

inductive Event
  | place (order : OrderId) (requestHash : String)
  | move (order : OrderId) (expected target : OrderStatus) (event : Option EventType)
      (reason : Option CancelReason) (now : ℕ)
  | cancel (order : OrderId) (allowed : List OrderStatus) (reason : CancelReason) (now : ℕ)
  /-- One of the publishers whose transaction has committed comes to publish. -/
  | publish (order : OrderId) (i : ℕ)
  | issue (order : OrderId) (sub ticket : String)
  | redeem (order : OrderId) (ticket : String)
  /-- The next thing that a stream does. -/
  | run (pid : ℕ)
  | beat (pid : ℕ)
  /-- The lifetime is over. -/
  | expire (pid : ℕ)
  /-- The client goes away. -/
  | close (pid : ℕ)
  deriving DecidableEq

def System.empty : System := ⟨fun _ => none, fun _ => [], fun _ => none, []⟩

/-- A write of the status commits: its publisher is to publish it. -/
def System.commit (s : System) (order : OrderId) (row : OrderRow) : System :=
  { s with
    rows := Function.update s.rows order (some row)
    pending := Function.update s.pending order (s.pending order ++ [row.status]) }

/-- What a stream does next, if it does not wait. -/
def Stream.run (owner : OrderId → String) (row : Option OrderRow) (inFlight : ℕ) (st : Stream) :
    Option Stream :=
  match st.phase with
  | .redeemed =>
    match row with
    | some r => some (if owner st.orderId = st.sub then
        { st with phase := .read r.status, owed := inFlight } else { st with phase := .ended })
    | none => some { st with phase := .ended }
  | .read first => some (st.send first .sent)
  | .sent => some { st with phase := .attached [] }
  | .attached (hint :: queue) => some (st.send hint (.attached queue))
  | .attached [] | .ended => none

/-- A stream that is waiting sends a frame of its own. -/
def Stream.idle (frame : Frame) (next : Phase) (st : Stream) : Option Stream :=
  match st.phase with
  | .attached _ => some { st with frames := frame :: st.frames, phase := next }
  | _ => none

def System.onStream (s : System) (pid : ℕ) (f : Stream → Option Stream) : Option System :=
  (s.streams[pid]?).bind fun st => (f st).map fun st' => { s with streams := s.streams.set pid st' }

/-- `owner`: whose order it is. -/
def step (owner : OrderId → String) (s : System) : Event → Option System
  | .place order requestHash =>
    match s.rows order with
    | none => some (s.commit order (.place requestHash))
    | some _ => some s
  | .move order expected target event reason now =>
    match transition (s.rows order) expected target event reason now with
    | .ok (some row, true) => some (s.commit order row)
    | _ => some s
  | .cancel order allowed reason now =>
    match s.rows order with
    | some r =>
      if r.status ∈ allowed then
        some (s.commit order ((r.moveTo .cancelling now).recordCancellation reason now))
      else some s
    | none => some s
  | .publish order i =>
    ((s.pending order)[i]?).map fun hint =>
      { s with
        pending := Function.update s.pending order ((s.pending order).eraseIdx i)
        streams := s.streams.map fun st => if st.orderId = order then st.hear hint else st }
  | .issue order sub ticket =>
    if s.tickets ticket = none ∧ owner order = sub ∧ s.rows order ≠ none then
      some { s with tickets := Function.update s.tickets ticket (some (order, sub)) }
    else none
  | .redeem order ticket =>
    match s.tickets ticket with
    | some (for', sub) =>
      some { s with
        tickets := Function.update s.tickets ticket none
        streams := if for' = order then s.streams ++ [⟨order, sub, .redeemed, [], 0⟩]
          else s.streams }
    | none => some s
  | .run pid =>
    s.onStream pid fun st => st.run owner (s.rows st.orderId) (s.pending st.orderId).length
  | .beat pid => s.onStream pid fun st => st.idle .heartbeat st.phase
  | .expire pid => s.onStream pid fun st => st.idle .reconnect .ended
  | .close pid => s.onStream pid fun st => some { st with phase := .ended }

/-- The hints of an order are published in the order of its commits; while a stream is opening,
only hints of commits that its read has seen are. -/
def InStep (s : System) : Event → Prop
  | .publish order i =>
    i = 0 ∧ ∀ st ∈ s.streams, st.orderId = order → st.opening = true → 0 < st.owed
  | _ => True

instance (s : System) : (e : Event) → Decidable (InStep s e)
  | .publish order i => inferInstanceAs (Decidable (i = 0 ∧ ∀ st ∈ s.streams,
      st.orderId = order → st.opening = true → 0 < st.owed))
  | .place _ _ | .move _ _ _ _ _ _ | .cancel _ _ _ _ | .issue _ _ _ | .redeem _ _ | .run _
  | .beat _ | .expire _ | .close _ => .isTrue trivial

/-! ### What a stream has said, and is still to hear -/

/-- With the hints to come, `x` ends in the status of the row. -/
def Ends (row : Option OrderRow) (x : OrderStatus) (hints : List OrderStatus) : Prop :=
  (x :: hints).getLast? = statusOf row

/-- The invariant of a stream, with the row of its order and the hints that are in flight. -/
def Follows (row : Option OrderRow) (pending : List OrderStatus) (st : Stream) : Prop :=
  match st.phase with
  | .redeemed | .ended => True
  | .read first => st.owed ≤ pending.length ∧ Ends row first (pending.drop st.owed)
  | .sent => st.owed ≤ pending.length ∧
      ∃ x, st.last = some x ∧ terminal x = false ∧ Ends row x (pending.drop st.owed)
  | .attached queue =>
      ∃ x, st.last = some x ∧ terminal x = false ∧ Ends row x (queue ++ pending)

/-- The last hint in flight is of the last commit. -/
def Latest (row : Option OrderRow) (pending : List OrderStatus) : Prop :=
  pending ≠ [] → pending.getLast? = statusOf row

structure Inv (s : System) : Prop where
  latest : ∀ order, Latest (s.rows order) (s.pending order)
  follows : ∀ st ∈ s.streams, Follows (s.rows st.orderId) (s.pending st.orderId) st

section

variable {row : Option OrderRow} {r : OrderRow} {pending hints : List OrderStatus}
  {x hint : OrderStatus} {st st' : Stream}

theorem ends_nil : Ends row x [] ↔ statusOf row = some x := eq_comm

theorem ends_snoc : Ends (some r) x (hints ++ [r.status]) := by
  have h : x :: (hints ++ [r.status]) = (x :: hints) ++ [r.status] := rfl
  rw [Ends, h, List.getLast?_concat, statusOf_some]

theorem ends_cons : Ends row x (hint :: hints) ↔ Ends row hint hints := by
  rw [Ends, Ends, List.getLast?_cons_cons]

/-- A hint that is in flight hides what was sent before it. -/
theorem Ends.of_latest (h : Latest row pending) (hne : pending ≠ []) : Ends row x pending := by
  obtain ⟨y, rest, rfl⟩ := List.exists_cons_of_ne_nil hne
  rw [ends_cons]
  exact h hne

/-- Nothing that is in flight at the subscription is lost to it. -/
theorem Ends.of_drop {n : ℕ} (hl : Latest row pending) (h : Ends row x (pending.drop n)) :
    Ends row x pending := by
  by_cases hne : pending = []
  · rw [hne, List.drop_nil] at h
    rwa [hne]
  · exact .of_latest hl hne

theorem latest_snoc : Latest (some r) (pending ++ [r.status]) := by
  intro _
  rw [List.getLast?_concat, statusOf_some]

theorem Latest.tail (h : Latest row (hint :: hints)) : Latest row hints := by
  intro hne
  obtain ⟨y, rest, rfl⟩ := List.exists_cons_of_ne_nil hne
  rw [← h (List.cons_ne_nil _ _), List.getLast?_cons_cons]

/-! ### One step -/

/-- A commit leaves a hint behind, for every stream that has read the row. -/
theorem Follows.commit (h : Follows row pending st) :
    Follows (some r) (pending ++ [r.status]) st := by
  rw [Follows] at h ⊢
  cases hp : st.phase with
  | redeemed => trivial
  | ended => trivial
  | read first =>
    rw [hp] at h
    have hle := h.1
    refine ⟨by rw [List.length_append]; omega, ?_⟩
    rw [List.drop_append_of_le_length hle]
    exact ends_snoc
  | sent =>
    rw [hp] at h
    obtain ⟨hle, x, hx, ht, -⟩ := h
    refine ⟨by rw [List.length_append]; omega, x, hx, ht, ?_⟩
    rw [List.drop_append_of_le_length hle]
    exact ends_snoc
  | attached queue =>
    rw [hp] at h
    obtain ⟨x, hx, ht, -⟩ := h
    refine ⟨x, hx, ht, ?_⟩
    rw [← List.append_assoc]
    exact ends_snoc

/-- A publication reaches the streams that are subscribed, and the others have seen its commit. -/
theorem Follows.hear (h : Follows row (hint :: pending) st)
    (hopen : st.opening = true → 0 < st.owed) : Follows row pending (st.hear hint) := by
  have key : ∀ n, 0 < n → (hint :: pending).drop n = pending.drop (n - 1) := by
    intro n hn
    obtain ⟨m, rfl⟩ := Nat.exists_eq_succ_of_ne_zero hn.ne'
    rfl
  obtain ⟨orderId, sub, phase, frames, owed⟩ := st
  cases phase with
  | redeemed => trivial
  | ended => trivial
  | read first =>
    have hpos : 0 < owed := hopen rfl
    obtain ⟨hle, he⟩ := h
    rw [key owed hpos] at he
    have hle : owed ≤ pending.length + 1 := hle
    exact ⟨show owed - 1 ≤ pending.length by omega, he⟩
  | sent =>
    have hpos : 0 < owed := hopen rfl
    obtain ⟨hle, x, hx, ht, he⟩ := h
    rw [key owed hpos] at he
    have hle : owed ≤ pending.length + 1 := hle
    exact ⟨show owed - 1 ≤ pending.length by omega, x, hx, ht, he⟩
  | attached queue =>
    obtain ⟨x, hx, ht, he⟩ := h
    refine ⟨x, hx, ht, ?_⟩
    rw [List.append_assoc]
    exact he

/-- A stream that goes on after a status has sent one that is not terminal. -/
theorem Follows.send {next : Phase}
    (h : terminal x = false → Follows row pending { st with
      frames := .status x :: st.frames, phase := next }) :
    Follows row pending (st.send x next) := by
  cases ht : terminal x with
  | true =>
    rw [Stream.send, ht]
    trivial
  | false =>
    rw [Stream.send, ht]
    exact h ht

/-- What a stream does by itself. -/
theorem Follows.run {owner : OrderId → String} (hl : Latest row pending)
    (h : Follows row pending st) (hrun : st.run owner row pending.length = some st') :
    Follows row pending st' := by
  obtain ⟨orderId, sub, phase, frames, owed⟩ := st
  cases phase with
  | redeemed =>
    cases row with
    | none =>
      obtain rfl := Option.some.inj hrun
      trivial
    | some r =>
      obtain rfl := Option.some.inj hrun
      split
      · refine ⟨le_rfl, ?_⟩
        show Ends (some r) r.status (pending.drop pending.length)
        rw [List.drop_length, ends_nil, statusOf_some]
      · trivial
  | read first =>
    obtain rfl := Option.some.inj hrun
    apply Follows.send
    intro ht
    exact ⟨h.1, first, rfl, ht, h.2⟩
  | sent =>
    obtain rfl := Option.some.inj hrun
    obtain ⟨-, x, hx, ht, he⟩ := h
    exact ⟨x, hx, ht, he.of_drop hl⟩
  | attached queue =>
    cases queue with
    | nil => simp [Stream.run] at hrun
    | cons hint queue =>
      obtain rfl := Option.some.inj hrun
      obtain ⟨x, -, -, he⟩ := h
      apply Follows.send
      intro ht
      exact ⟨hint, rfl, ht, ends_cons.mp he⟩
  | ended => simp [Stream.run] at hrun

/-- A heartbeat is no status. -/
theorem Follows.beat (h : Follows row pending st)
    (hrun : st.idle .heartbeat st.phase = some st') : Follows row pending st' := by
  obtain ⟨orderId, sub, phase, frames, owed⟩ := st
  cases phase with
  | attached queue =>
    obtain rfl := Option.some.inj hrun
    exact h
  | _ => simp [Stream.idle] at hrun

theorem orderId_of_run {owner : OrderId → String} {n : ℕ} (h : st.run owner row n = some st') :
    st'.orderId = st.orderId := by
  obtain ⟨orderId, sub, phase, frames, owed⟩ := st
  cases phase with
  | redeemed =>
    cases row with
    | none =>
      obtain rfl := Option.some.inj h
      rfl
    | some r =>
      obtain rfl := Option.some.inj h
      split <;> rfl
  | read first =>
    obtain rfl := Option.some.inj h
    rfl
  | sent =>
    obtain rfl := Option.some.inj h
    rfl
  | attached queue =>
    cases queue with
    | nil => simp [Stream.run] at h
    | cons hint queue =>
      obtain rfl := Option.some.inj h
      rfl
  | ended => simp [Stream.run] at h

theorem idle_eq {frame : Frame} {next : Phase} (h : st.idle frame next = some st') :
    st' = { st with frames := frame :: st.frames, phase := next } := by
  rw [Stream.idle] at h
  split at h
  · exact (Option.some.inj h).symm
  · cases h

end

/-! ### Every run -/

section

variable {owner : OrderId → String} {s s' : System} {order : OrderId}

theorem Inv.commit (h : Inv s) {r : OrderRow} : Inv (s.commit order r) := by
  constructor
  · intro o
    by_cases ho : o = order
    · subst ho
      show Latest (Function.update s.rows o _ o) (Function.update s.pending o _ o)
      rw [Function.update_self, Function.update_self]
      exact latest_snoc
    · show Latest (Function.update s.rows order _ o) (Function.update s.pending order _ o)
      rw [Function.update_of_ne ho, Function.update_of_ne ho]
      exact h.latest o
  · intro st hst
    have hf := h.follows st hst
    by_cases ho : st.orderId = order
    · subst ho
      show Follows (Function.update s.rows _ _ _) (Function.update s.pending _ _ _) st
      rw [Function.update_self, Function.update_self]
      exact hf.commit
    · show Follows (Function.update s.rows order _ _) (Function.update s.pending order _ _) st
      rw [Function.update_of_ne ho, Function.update_of_ne ho]
      exact hf

/-- What one stream does keeps the invariant, if it keeps that of the stream. -/
theorem Inv.onStream (h : Inv s) {pid : ℕ} {f : Stream → Option Stream}
    (hf : ∀ st st', st ∈ s.streams → f st = some st' →
      Follows (s.rows st'.orderId) (s.pending st'.orderId) st')
    (hs : s.onStream pid f = some s') : Inv s' := by
  obtain ⟨st, hget, hs⟩ := Option.bind_eq_some_iff.mp hs
  obtain ⟨st', hst', rfl⟩ := Option.map_eq_some_iff.mp hs
  have hmem := List.mem_of_getElem? hget
  refine ⟨h.latest, ?_⟩
  intro other hother
  rcases List.mem_or_eq_of_mem_set hother with ho | rfl
  · exact h.follows other ho
  · exact hf st _ hmem hst'

theorem Inv.publish (h : Inv s) {i : ℕ} (hok : InStep s (.publish order i))
    (hs : step owner s (.publish order i) = some s') : Inv s' := by
  obtain ⟨rfl, hopen⟩ := hok
  obtain ⟨hint, hget, rfl⟩ := Option.map_eq_some_iff.mp hs
  obtain ⟨rest, hrest⟩ : ∃ rest, s.pending order = hint :: rest := by
    cases hp : s.pending order with
    | nil => rw [hp] at hget; cases hget
    | cons a rest =>
      rw [hp] at hget
      obtain rfl := Option.some.inj hget
      exact ⟨rest, rfl⟩
  have htail : (s.pending order).eraseIdx 0 = rest := by rw [hrest]; rfl
  have hl := h.latest order
  constructor
  · intro o
    show Latest (s.rows o) (Function.update s.pending order _ o)
    by_cases ho : o = order
    · subst ho
      rw [Function.update_self, htail]
      rw [hrest] at hl
      exact hl.tail
    · rw [Function.update_of_ne ho]
      exact h.latest o
  · intro st hst
    obtain ⟨st₀, hst₀, rfl⟩ := List.mem_map.mp hst
    have hf := h.follows st₀ hst₀
    by_cases ho : st₀.orderId = order
    · subst ho
      rw [if_pos rfl]
      have hid : (st₀.hear hint).orderId = st₀.orderId := by
        rw [Stream.hear]
        split <;> rfl
      rw [hid]
      show Follows _ (Function.update s.pending st₀.orderId _ st₀.orderId) _
      rw [Function.update_self, htail]
      rw [hrest] at hf
      exact hf.hear (hopen st₀ hst₀ rfl)
    · rw [if_neg ho]
      show Follows _ (Function.update s.pending order _ st₀.orderId) _
      rw [Function.update_of_ne ho]
      exact hf

theorem Inv.step {e : Event} (h : Inv s) (hok : InStep s e)
    (hs : Tracking.step owner s e = some s') : Inv s' := by
  cases e with
  | place o requestHash =>
    simp only [Tracking.step] at hs
    split at hs
    · obtain rfl := Option.some.inj hs
      exact h.commit
    · obtain rfl := Option.some.inj hs
      exact h
  | move o expected target event reason now =>
    simp only [Tracking.step] at hs
    split at hs
    · obtain rfl := Option.some.inj hs
      exact h.commit
    · obtain rfl := Option.some.inj hs
      exact h
  | cancel o allowed reason now =>
    simp only [Tracking.step] at hs
    split at hs
    · split at hs
      · obtain rfl := Option.some.inj hs
        exact h.commit
      · obtain rfl := Option.some.inj hs
        exact h
    · obtain rfl := Option.some.inj hs
      exact h
  | publish o i => exact h.publish hok hs
  | issue o sub ticket =>
    simp only [Tracking.step] at hs
    split at hs
    · obtain rfl := Option.some.inj hs
      exact ⟨h.latest, h.follows⟩
    · cases hs
  | redeem o ticket =>
    simp only [Tracking.step] at hs
    split at hs
    · obtain rfl := Option.some.inj hs
      refine ⟨h.latest, ?_⟩
      intro st hst
      simp only at hst
      split at hst
      · rcases List.mem_append.mp hst with hst | hst
        · exact h.follows st hst
        · obtain rfl := List.mem_singleton.mp hst
          trivial
      · exact h.follows st hst
    · obtain rfl := Option.some.inj hs
      exact h
  | run pid =>
    refine h.onStream ?_ hs
    intro st st' hst hrun
    rw [orderId_of_run hrun]
    exact (h.follows st hst).run (h.latest _) hrun
  | beat pid =>
    refine h.onStream ?_ hs
    intro st st' hst hrun
    have hid : st'.orderId = st.orderId := by rw [idle_eq hrun]
    rw [hid]
    exact (h.follows st hst).beat hrun
  | expire pid =>
    refine h.onStream ?_ hs
    intro st st' hst hrun
    obtain rfl := idle_eq hrun
    trivial
  | close pid =>
    refine h.onStream ?_ hs
    intro st st' hst hrun
    obtain rfl := Option.some.inj hrun
    trivial

theorem Inv.run {es : List Event} (hrun : Run (Tracking.step owner) InStep .empty es s) : Inv s := by
  refine hrun.invariant (I := Inv) ⟨?_, ?_⟩ ?_
  · intro o hne
    exact absurd rfl hne
  · intro st hst
    cases hst
  · intro t e u ht hok hs
    exact ht.step hok hs

end

/-! ### A stream that catches up -/

/-- What a stream still does by itself when nothing is published. -/
def Stream.left (st : Stream) : ℕ :=
  match st.phase with
  | .redeemed => 3
  | .read _ => 2
  | .sent => 1
  | .attached queue => queue.length
  | .ended => 0

/-- At most `n` things that a stream does by itself, with no hint in flight. -/
def Stream.relay (owner : OrderId → String) (row : Option OrderRow) : ℕ → Stream → Stream
  | 0, st => st
  | n + 1, st =>
    match st.run owner row 0 with
    | some st' => st'.relay owner row n
    | none => st

/-- The stream is over, or it waits at the status of a row that is neither settled nor
cancelled. -/
def Current (row : Option OrderRow) (st : Stream) : Prop :=
  st.phase = .ended ∨
    (st.last = statusOf row ∧ statusOf row ≠ some .settled ∧ statusOf row ≠ some .cancelled)

section

variable {owner : OrderId → String} {row : Option OrderRow} {st st' : Stream}

theorem left_send {s : OrderStatus} {next : Phase} :
    (st.send s next).left ≤ ({ st with phase := next } : Stream).left := by
  rw [Stream.send]
  split
  · exact Nat.zero_le _
  · exact le_rfl

theorem left_run {n : ℕ} (h : st.run owner row n = some st') : st'.left < st.left := by
  obtain ⟨orderId, sub, phase, frames, owed⟩ := st
  cases phase with
  | redeemed =>
    cases row with
    | none =>
      obtain rfl := Option.some.inj h
      show 0 < 3
      omega
    | some r =>
      obtain rfl := Option.some.inj h
      split
      · show 2 < 3
        omega
      · show 0 < 3
        omega
  | read first =>
    obtain rfl := Option.some.inj h
    exact Nat.lt_of_le_of_lt left_send (show 1 < 2 by omega)
  | sent =>
    obtain rfl := Option.some.inj h
    show 0 < 1
    omega
  | attached queue =>
    cases queue with
    | nil => simp [Stream.run] at h
    | cons hint queue =>
      obtain rfl := Option.some.inj h
      exact Nat.lt_of_le_of_lt left_send (show queue.length < queue.length + 1 by omega)
  | ended => simp [Stream.run] at h

/-- A stream comes to wait. -/
theorem relay_waits {n : ℕ} (hn : st.left ≤ n) : (st.relay owner row n).run owner row 0 = none := by
  induction n generalizing st with
  | zero =>
    cases hr : st.run owner row 0 with
    | none => exact hr
    | some st' =>
      have hlt := left_run hr
      omega
  | succ n ih =>
    rw [Stream.relay]
    cases hr : st.run owner row 0 with
    | none => exact hr
    | some st' =>
      have hlt := left_run hr
      exact ih (by omega)

theorem Follows.relay {n : ℕ} (h : Follows row [] st) :
    Follows row [] (st.relay owner row n) := by
  induction n generalizing st with
  | zero => exact h
  | succ n ih =>
    rw [Stream.relay]
    cases hr : st.run owner row 0 with
    | none => exact h
    | some st' => exact ih (h.run (fun hne => absurd rfl hne) hr)

theorem not_over {x : OrderStatus} (hx : statusOf row = some x) (ht : terminal x = false) :
    statusOf row ≠ some .settled ∧ statusOf row ≠ some .cancelled := by
  constructor <;> intro h <;> rw [hx] at h <;> cases h <;> cases ht

theorem Follows.current (h : Follows row [] st)
    (hwait : st.phase = .sent ∨ st.phase = .attached []) : Current row st := by
  right
  have key : ∃ x, st.last = some x ∧ terminal x = false ∧ Ends row x [] := by
    rcases hwait with hp | hp
    · rw [Follows, hp] at h
      obtain ⟨-, x, hx, ht, he⟩ := h
      rw [List.drop_nil] at he
      exact ⟨x, hx, ht, he⟩
    · rw [Follows, hp] at h
      exact h
  obtain ⟨x, hx, ht, he⟩ := key
  have hrow := ends_nil.mp he
  exact ⟨hx.trans hrow.symm, not_over hrow ht⟩

theorem phase_of_waits (h : st.run owner row 0 = none) :
    st.phase = .attached [] ∨ st.phase = .ended := by
  obtain ⟨orderId, sub, phase, frames, owed⟩ := st
  cases phase with
  | redeemed => cases row <;> simp [Stream.run] at h
  | read first => simp [Stream.run] at h
  | sent => simp [Stream.run] at h
  | attached queue =>
    cases queue with
    | nil => exact .inl rfl
    | cons hint queue => simp [Stream.run] at h
  | ended => exact .inr rfl

end

section

variable {owner : OrderId → String} {s : System} {es : List Event} {st : Stream}

/-- **No stream ends up stale.**  With no hint of its order in flight, a stream that has nothing to
relay has sent the status of the row last, and every stream comes to that by itself or ends, as it
does when the order is settled or cancelled. -/
theorem follows_of_run (hrun : Run (step owner) InStep .empty es s) (hst : st ∈ s.streams)
    (hpending : s.pending st.orderId = []) :
    ((st.phase = .sent ∨ st.phase = .attached []) → Current (s.rows st.orderId) st) ∧
    Current (s.rows st.orderId) (st.relay owner (s.rows st.orderId) st.left) := by
  have hf := (Inv.run hrun).follows st hst
  rw [hpending] at hf
  refine ⟨hf.current, ?_⟩
  rcases phase_of_waits (@relay_waits owner (s.rows st.orderId) st _ le_rfl) with hp | hp
  · exact hf.relay.current (.inr hp)
  · exact .inl hp

/-- An order is validated while its stream is subscribed. -/
def validatedMeanwhile : List Event :=
  [.place "o1" "h", .publish "o1" 0, .issue "o1" "u1" "t1", .redeem "o1" "t1", .run 0, .run 0,
    .run 0, .move "o1" .placed .validated none none 1, .publish "o1" 0, .run 0]

theorem follows_of_run_validated : ∃ s st, Run (step fun _ => "u1") InStep .empty validatedMeanwhile s ∧
    st ∈ s.streams ∧ Current (s.rows st.orderId) st := by
  obtain ⟨s, hs, hp⟩ : ∃ s, Run (step fun _ => "u1") InStep .empty validatedMeanwhile s ∧
      decide (s.pending "o1" = [] ∧
        s.streams = [⟨"o1", "u1", .attached [], [.status .validated, .status .placed], 0⟩]) =
        true := exists_run_of_execOk (by decide)
  obtain ⟨hpending, hstreams⟩ := of_decide_eq_true hp
  have hst : ⟨"o1", "u1", .attached [], [.status .validated, .status .placed], 0⟩ ∈ s.streams := by
    rw [hstreams]
    exact List.mem_singleton_self _
  exact ⟨s, _, hs, hst, (follows_of_run hs hst hpending).1 (.inr rfl)⟩

/-- An order is cancelled between the read and the subscription. -/
def cancelledMeanwhile : List Event :=
  [.place "o1" "h", .publish "o1" 0, .move "o1" .placed .cancelling none (some .itemUnavailable) 1,
    .publish "o1" 0, .issue "o1" "u1" "t1", .redeem "o1" "t1", .run 0, .run 0,
    .move "o1" .cancelling .cancelled (some .orderCancelled) (some .itemUnavailable) 2,
    .publish "o1" 0, .run 0]

/-- **A hint that is missed**: nothing is in flight, the order is cancelled, and the stream waits
behind the status before. -/
theorem missed_hint : ∃ s st, Run (step fun _ => "u1") Always .empty cancelledMeanwhile s ∧
    s.pending "o1" = [] ∧ st ∈ s.streams ∧ st.orderId = "o1" ∧ st.phase = .attached [] ∧
    st.last = some .cancelling ∧ statusOf (s.rows "o1") = some .cancelled := by
  obtain ⟨s, hs, hp⟩ : ∃ s, Run (step fun _ => "u1") Always .empty cancelledMeanwhile s ∧
      decide (s.pending "o1" = [] ∧
        s.streams = [⟨"o1", "u1", .attached [], [.status .cancelling], 0⟩] ∧
        statusOf (s.rows "o1") = some .cancelled) = true := exists_run_of_execOk (by decide)
  obtain ⟨hpending, hstreams, hrow⟩ := of_decide_eq_true hp
  exact ⟨s, _, hs, hpending, by rw [hstreams]; exact List.mem_singleton_self _, rfl, rfl, rfl, hrow⟩

end

end Order.Tracking
