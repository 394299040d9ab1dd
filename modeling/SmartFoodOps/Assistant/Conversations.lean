/-
Conversations that belong to whoever used them first.

* `Row`, `Conversation` — messages, each with the user whose turn wrote it, and conversations;
* `World`, `step` — turns that start statement by statement, answers that settle, and readers of
  cards, of any number of users;
* `Turn.Inv`, `Inv` — a turn that writes holds its conversation, which is its user's;
* `Frame` — what a step of one turn leaves to the others;
* `isolated_of_run` — histories, cards and tickets stay with the user who wrote what they show, and
  a turn of anybody but the first user of its conversation changes no row.
-/
import SmartFoodOps.Lib.Transaction
import SmartFoodOps.Assistant.Chat

open Machine Keyed Transaction

namespace Assistant.Conversations

open Chat (Role ChatMessage)

/-! ### Rows -/

/-- A row of `messages`. -/
structure Row extends ChatMessage where
  itemIds : List String
  /-- The user whose turn wrote it; no column. -/
  author : String
  /-- The turn whose transaction has not committed it yet. -/
  writer : Option ℕ
  deriving DecidableEq

/-- A row of `conversations`. -/
structure Conversation where
  userId : String
  city : String
  createdAt : ℕ
  updatedAt : ℕ
  deriving DecidableEq

/-- The `POST`; whoever asks chooses the conversation. -/
structure Question where
  userId : String
  conversationId : String
  messageId : String
  askedId : String
  text : String
  city : String
  askedAt : ℕ
  deriving DecidableEq

/-- The next statement of `ChatService.start`. -/
inductive Phase
  | ensure
  | answer
  | ask
  | loadHistory
  | commit
  | started
  /-- Refused, or failed. -/
  | ended
  deriving DecidableEq

structure Turn where
  question : Question
  phase : Phase
  history : List Row
  deriving DecidableEq

/-- What is given to a user: a ticket for a message, or its cards. -/
structure Given where
  messageId : String
  userId : String
  deriving DecidableEq

abbrev Messages := Table Row String fun m => m.id

structure World where
  conversations : Rows String Conversation ℕ
  messages : Messages
  turns : ℕ → Option Turn
  /-- The readers of cards whose message was found to be theirs. -/
  readers : ℕ → Option Given
  tickets : List Given
  cards : List Given

def World.init : World := ⟨.empty, .empty, fun _ => none, fun _ => none, [], []⟩

/-! ### Statements -/

def World.put (w : World) (pid : ℕ) (t : Turn) : World :=
  { w with turns := Function.update w.turns pid (some t) }

/-- The messages that a transaction sees. -/
def seen (messages : Messages) (pid : ℕ) : List Row :=
  messages.rows.filter fun m => m.writer = none ∨ m.writer = some pid

/-- `ConversationRepo.history`: the latest messages, the oldest first. -/
def history (rows : List Row) (conversationId : String) (limit : ℕ) : List Row :=
  (latest (fun m => m.stamp) limit
    (rows.filter fun m => m.conversationId = conversationId)).reverse

/-- The transaction is rolled back, and the turn is over. -/
def World.abort (w : World) (pid : ℕ) (t : Turn) : World :=
  { w.put pid { t with phase := .ended } with
    conversations := w.conversations.rollback pid
    messages := w.messages.deleteWhere fun m => m.writer = some pid }

/-- `ensure_conversation`: the row of the conversation, if it is the user's. -/
def ensureConversation (found : Option Conversation) (q : Question) : Option Conversation :=
  match found with
  | none => some ⟨q.userId, q.city, q.askedAt, q.askedAt⟩
  | some c => if c.userId = q.userId then some { c with updatedAt := q.askedAt } else none

/-- `start_message`; an identifier that is taken is an error. -/
def World.startMessage (w : World) (pid : ℕ) (t : Turn) (m : ChatMessage) (next : Phase) :
    Option World :=
  match w.messages.find m.id with
  | none => some { w.put pid { t with phase := next } with
      messages := w.messages.put ⟨m, [], t.question.userId, some pid⟩ }
  | some m' => if m'.writer.any (· ≠ pid) then none else some (w.abort pid t)

/-- The next statement of a turn; `none` is one that waits. -/
def World.run (limit : ℕ) (w : World) (pid : ℕ) (t : Turn) : Option World :=
  let q := t.question
  match t.phase with
  | .ensure =>
    if w.conversations.free pid q.conversationId then
      match ensureConversation (w.conversations.read pid q.conversationId) q with
      | some c => some { w.put pid { t with phase := .answer } with
          conversations := w.conversations.write pid q.conversationId (some c) }
      | none => some (w.abort pid t)
    else none
  | .answer => w.startMessage pid t
      ⟨q.messageId, q.conversationId, .assistant, "", .streaming, q.askedAt + 1⟩ .ask
  | .ask => w.startMessage pid t
      ⟨q.askedId, q.conversationId, .user, q.text, .complete, q.askedAt⟩ .loadHistory
  | .loadHistory =>
    let before := (history (seen w.messages pid) q.conversationId limit).filter fun m =>
      m.id ≠ q.messageId && m.id ≠ q.askedId && m.content ≠ ""
    some (w.put pid { t with phase := .commit, history := before })
  | .commit => some { w.put pid { t with phase := .started } with
      conversations := w.conversations.commit pid
      messages := w.messages.updateWhere (fun m => m.writer = some pid)
        (fun m => { m with writer := none }) fun _ => rfl }
  | .started | .ended => none

/-- `finish_message`. -/
def finishMessage (messages : Messages) (messageId content : String) (status : Status)
    (itemIds : List String) : Messages :=
  messages.updateWhere (fun m => m.id = messageId && m.status = .streaming && m.writer = none)
    (fun m => { m with content, status, itemIds }) fun _ => rfl

/-- `owner_of`, through the conversation of a message. -/
def World.ownerOf (w : World) (messageId : String) : Option String :=
  ((w.messages.find messageId).filter fun m => m.writer = none).bind fun m =>
    (w.conversations.committed m.conversationId).map Conversation.userId

inductive Event
  | ask (pid : ℕ) (q : Question)
  | run (pid : ℕ)
  /-- Something is raised, or the process dies. -/
  | fail (pid : ℕ)
  /-- The ticket of the `POST`'s answer. -/
  | mint (pid : ℕ)
  /-- The answer of a turn is there, or is not to be had. -/
  | settle (pid : ℕ) (content : String) (status : Status) (itemIds : List String)
  /-- `for_message` comes to the owner of a message. -/
  | lookUp (rid : ℕ) (messageId userId : String)
  /-- `for_message` reads the message and prices its dishes. -/
  | price (rid : ℕ)
  deriving DecidableEq

/-- The turn whose step it is. -/
def Event.turn : Event → Option ℕ
  | .run pid | .fail pid | .mint pid | .settle pid _ _ _ => some pid
  | .ask _ _ | .lookUp _ _ _ | .price _ => none

def step (limit : ℕ) (w : World) : Event → Option World
  | .ask pid q => if w.turns pid = none then some (w.put pid ⟨q, .ensure, []⟩) else none
  | .run pid => (w.turns pid).bind fun t => w.run limit pid t
  | .fail pid => (w.turns pid).map fun t => w.abort pid t
  | .mint pid =>
    (w.turns pid).bind fun t =>
      if t.phase = .started then
        some { w with tickets := ⟨t.question.messageId, t.question.userId⟩ :: w.tickets }
      else none
  | .settle pid content status itemIds =>
    (w.turns pid).bind fun t =>
      if t.phase = .started then
        some { w with
          messages := finishMessage w.messages t.question.messageId content status itemIds }
      else none
  | .lookUp rid messageId userId =>
    if w.ownerOf messageId = some userId then
      some { w with readers := Function.update w.readers rid (some ⟨messageId, userId⟩) }
    else some w
  | .price rid =>
    (w.readers rid).map fun g =>
      { w with readers := Function.update w.readers rid none, cards := g :: w.cards }

/-! ### The invariant -/

/-- The transaction has written, and has not ended. -/
def Phase.writing : Phase → Bool
  | .answer | .ask | .loadHistory | .commit => true
  | .ensure | .started | .ended => false

/-- The row of the answer is written, and not committed. -/
def Phase.answered : Phase → Bool
  | .ask | .loadHistory | .commit => true
  | .ensure | .answer | .started | .ended => false

/-- A turn of the user has written the message, and it is committed. -/
def Owned (w : World) (g : Given) : Prop :=
  ∃ m ∈ w.messages, m.id = g.messageId ∧ m.author = g.userId ∧ m.writer = none

/-- The conversation is there, and it is the user's. -/
def First (w : World) (conversationId userId : String) : Prop :=
  ∃ c, w.conversations.committed conversationId = some c ∧ c.userId = userId

/-- A turn that writes holds the row of its conversation, which is its user's. -/
structure Turn.Inv (w : World) (pid : ℕ) (t : Turn) : Prop where
  holds : t.phase.writing = true → ∃ c,
    w.conversations.pending t.question.conversationId = some (pid, some c) ∧
    c.userId = t.question.userId ∧
    ∀ c', w.conversations.committed t.question.conversationId = some c' →
      c'.userId = t.question.userId
  answered : t.phase.answered = true → ∃ m ∈ w.messages, m.id = t.question.messageId ∧
    m.author = t.question.userId ∧ m.writer = some pid
  started : t.phase = .started → Owned w ⟨t.question.messageId, t.question.userId⟩ ∧
    First w t.question.conversationId t.question.userId
  history : ∀ m ∈ t.history, m.author = t.question.userId

/-- Whose uncommitted writes they are. -/
structure Writes (w : World) (pid : ℕ) : Prop where
  pending : ∀ k v, w.conversations.pending k = some (pid, v) →
    ∃ t, w.turns pid = some t ∧ t.phase.writing = true ∧ t.question.conversationId = k
  written : ∀ m ∈ w.messages, m.writer = some pid →
    ∃ t, w.turns pid = some t ∧ t.phase.writing = true ∧ m.author = t.question.userId ∧
      m.conversationId = t.question.conversationId

structure Inv (w : World) : Prop where
  turns : ∀ pid t, w.turns pid = some t → t.Inv w pid
  writes : ∀ pid, Writes w pid
  committed : ∀ m ∈ w.messages, m.writer = none → First w m.conversationId m.author
  readers : ∀ rid g, w.readers rid = some g → Owned w g
  tickets : ∀ g ∈ w.tickets, Owned w g
  cards : ∀ g ∈ w.cards, Owned w g

/-- What a step of one turn leaves to the others. -/
structure Frame (w w' : World) (pid : ℕ) : Prop where
  turns : ∀ u, u ≠ pid → w'.turns u = w.turns u
  pending : ∀ u, u ≠ pid → ∀ k v, w'.conversations.pending k = some (u, v) ↔
    w.conversations.pending k = some (u, v)
  held : ∀ u, u ≠ pid → ∀ k v, w.conversations.pending k = some (u, v) →
    w'.conversations.committed k = w.conversations.committed k
  first : ∀ k userId, First w k userId → First w' k userId
  kept : ∀ m ∈ w.messages, m.writer ≠ some pid → ∃ m' ∈ w'.messages, m'.id = m.id ∧
    m'.author = m.author ∧ m'.writer = m.writer
  others : ∀ m' ∈ w'.messages, ∀ u, u ≠ pid → m'.writer = some u → m' ∈ w.messages
  readers : ∀ rid g, w'.readers rid = some g → w.readers rid = some g ∨ Owned w' g
  tickets : ∀ g ∈ w'.tickets, g ∈ w.tickets ∨ Owned w' g
  cards : ∀ g ∈ w'.cards, g ∈ w.cards ∨ Owned w' g

variable {limit : ℕ} {w w' : World} {pid u : ℕ} {t : Turn} {g : Given} {k : String}

/-! ### Frames -/

theorem Frame.owned (hf : Frame w w' pid) (h : Owned w g) : Owned w' g := by
  obtain ⟨m, hm, hid, hauthor, hwriter⟩ := h
  obtain ⟨m', hm', hid', hauthor', hwriter'⟩ :=
    hf.kept m hm (by rw [hwriter]; exact Option.some_ne_none pid |>.symm)
  exact ⟨m', hm', hid'.trans hid, hauthor'.trans hauthor, hwriter'.trans hwriter⟩

theorem Frame.turnInv (hf : Frame w w' pid) (hu : u ≠ pid) (h : t.Inv w u) : t.Inv w' u := by
  refine ⟨?_, ?_, ?_, h.history⟩
  · intro hwriting
    obtain ⟨c, hp, hc, hcommitted⟩ := h.holds hwriting
    refine ⟨c, (hf.pending u hu _ _).mpr hp, hc, ?_⟩
    rw [hf.held u hu _ _ hp]
    exact hcommitted
  · intro hanswered
    obtain ⟨m, hm, hid, hauthor, hwriter⟩ := h.answered hanswered
    obtain ⟨m', hm', hid', hauthor', hwriter'⟩ :=
      hf.kept m hm (by rw [hwriter]; exact fun he => hu (Option.some.inj he))
    exact ⟨m', hm', hid'.trans hid, hauthor'.trans hauthor, hwriter'.trans hwriter⟩
  · intro hstarted
    obtain ⟨howned, hfirst⟩ := h.started hstarted
    exact ⟨hf.owned howned, hf.first _ _ hfirst⟩

theorem Frame.writes (hf : Frame w w' pid) (hu : u ≠ pid) (h : Writes w u) : Writes w' u := by
  refine ⟨?_, ?_⟩
  · intro k v hv
    rw [hf.turns u hu]
    exact h.pending k v ((hf.pending u hu k v).mp hv)
  · intro m hm hwriter
    rw [hf.turns u hu]
    exact h.written m (hf.others m hm u hu hwriter) hwriter

/-- Only the turn's own part of the invariant is to be shown of its step. -/
theorem Inv.of_frame (h : Inv w) (hf : Frame w w' pid)
    (hturn : ∀ t, w'.turns pid = some t → t.Inv w' pid) (hwrites : Writes w' pid)
    (hcommitted : ∀ m ∈ w'.messages, m.writer = none → First w' m.conversationId m.author) :
    Inv w' := by
  refine ⟨?_, ?_, hcommitted, ?_, ?_, ?_⟩
  · intro u t ht
    by_cases hu : u = pid
    · subst hu
      exact hturn t ht
    · rw [hf.turns u hu] at ht
      exact hf.turnInv hu (h.turns u t ht)
  · intro u
    by_cases hu : u = pid
    · subst hu
      exact hwrites
    · exact hf.writes hu (h.writes u)
  · intro rid g hg
    exact (hf.readers rid g hg).elim (fun hg => hf.owned (h.readers rid g hg)) id
  · intro g hg
    exact (hf.tickets g hg).elim (fun hg => hf.owned (h.tickets g hg)) id
  · intro g hg
    exact (hf.cards g hg).elim (fun hg => hf.owned (h.cards g hg)) id

/-- A step that is no turn's is a frame of each. -/
theorem Inv.of_frames (h : Inv w) (hf : ∀ u, Frame w w' u)
    (hcommitted : ∀ m ∈ w'.messages, m.writer = none → First w' m.conversationId m.author) :
    Inv w' := by
  refine h.of_frame (hf 0) ?_ ((hf 1).writes Nat.zero_ne_one (h.writes 0)) hcommitted
  intro t ht
  rw [(hf 1).turns 0 Nat.zero_ne_one] at ht
  exact (hf 1).turnInv Nat.zero_ne_one (h.turns 0 t ht)

theorem put_turns_self : (w.put pid t).turns pid = some t := Function.update_self ..

theorem put_turns_of_ne (h : u ≠ pid) : (w.put pid t).turns u = w.turns u :=
  Function.update_of_ne h ..

/-- A turn that has not written has no writes. -/
theorem Inv.no_writes (h : Inv w) (ht : w.turns pid = some t) (hw : t.phase.writing = false) :
    (∀ k v, w.conversations.pending k ≠ some (pid, v)) ∧
      ∀ m ∈ w.messages, m.writer ≠ some pid := by
  constructor
  · intro k v hv
    obtain ⟨t', ht', hw', -⟩ := (h.writes pid).pending k v hv
    obtain rfl := Option.some.inj (ht.symm.trans ht')
    rw [hw] at hw'
    cases hw'
  · intro m hm hwriter
    obtain ⟨t', ht', hw', -⟩ := (h.writes pid).written m hm hwriter
    obtain rfl := Option.some.inj (ht.symm.trans ht')
    rw [hw] at hw'
    cases hw'

/-! ### One step of a turn -/

theorem frame_put : Frame w (w.put pid t) pid where
  turns _ hu := put_turns_of_ne hu
  pending _ _ _ _ := Iff.rfl
  held _ _ _ _ _ := rfl
  first _ _ h := h
  kept m hm _ := ⟨m, hm, rfl, rfl, rfl⟩
  others _ hm _ _ _ := hm
  readers _ _ h := .inl h
  tickets _ h := .inl h
  cards _ h := .inl h

/-- What is given changes no row. -/
theorem frame_give {readers : ℕ → Option Given} {tickets cards : List Given}
    (hreaders : ∀ rid g, readers rid = some g → w.readers rid = some g ∨ Owned w g)
    (htickets : ∀ g ∈ tickets, g ∈ w.tickets ∨ Owned w g)
    (hcards : ∀ g ∈ cards, g ∈ w.cards ∨ Owned w g) :
    Frame w { w with readers, tickets, cards } u where
  turns _ _ := rfl
  pending _ _ _ _ := Iff.rfl
  held _ _ _ _ _ := rfl
  first _ _ h := h
  kept m hm _ := ⟨m, hm, rfl, rfl, rfl⟩
  others _ hm _ _ _ := hm
  readers := hreaders
  tickets := htickets
  cards := hcards

/-- A turn goes on without a write. -/
theorem Inv.put (h : Inv w) {t' : Turn} (ht : w.turns pid = some t)
    (hq : t'.question = t.question) (hwriting : t'.phase.writing = t.phase.writing)
    (hinv : t'.Inv w pid) : Inv (w.put pid t') := by
  refine h.of_frame frame_put ?_ ⟨?_, ?_⟩ h.committed
  · intro t'' ht''
    obtain rfl := Option.some.inj (put_turns_self.symm.trans ht'')
    exact ⟨hinv.holds, hinv.answered, hinv.started, hinv.history⟩
  · intro k v hv
    obtain ⟨t₀, ht₀, hw, hk⟩ := (h.writes pid).pending k v hv
    obtain rfl := Option.some.inj (ht.symm.trans ht₀)
    exact ⟨t', put_turns_self, hwriting.trans hw, by rw [hq, hk]⟩
  · intro m hm hwriter
    obtain ⟨t₀, ht₀, hw, hm'⟩ := (h.writes pid).written m hm hwriter
    obtain rfl := Option.some.inj (ht.symm.trans ht₀)
    refine ⟨t', put_turns_self, hwriting.trans hw, ?_⟩
    rw [hq]
    exact hm'

/-- A rollback leaves nothing of the turn. -/
theorem Inv.abort (h : Inv w) (ht : w.turns pid = some t) : Inv (w.abort pid t) := by
  have hmem : ∀ m, m ∈ (w.abort pid t).messages ↔ m ∈ w.messages ∧ m.writer ≠ some pid := by
    intro m
    refine Table.mem_deleteWhere.trans (and_congr_right fun _ => ?_)
    exact decide_eq_false_iff_not
  have hf : Frame w (w.abort pid t) pid := by
    refine ⟨fun _ hu => put_turns_of_ne hu, ?_, fun _ _ _ _ _ => rfl, fun _ _ h => h, ?_, ?_,
      fun _ _ h => .inl h, fun _ h => .inl h, fun _ h => .inl h⟩
    · intro u hu k v
      exact Rows.rollback_pending_iff.trans (and_iff_right hu)
    · intro m hm hwriter
      exact ⟨m, (hmem m).mpr ⟨hm, hwriter⟩, rfl, rfl, rfl⟩
    · intro m hm u _ _
      exact ((hmem m).mp hm).1
  refine h.of_frame hf ?_ ⟨?_, ?_⟩ ?_
  · intro t' ht'
    obtain rfl := Option.some.inj (put_turns_self.symm.trans ht')
    exact ⟨by rintro ⟨⟩, by rintro ⟨⟩, by rintro ⟨⟩, (h.turns pid t ht).history⟩
  · intro k v hv
    exact absurd hv (Rows.idle_rollback k v)
  · intro m hm hwriter
    exact absurd hwriter ((hmem m).mp hm).2
  · intro m hm hwriter
    exact h.committed m ((hmem m).mp hm).1 hwriter

theorem userId_ensureConversation {found : Option Conversation} {q : Question} {c : Conversation}
    (h : ensureConversation found q = some c) :
    c.userId = q.userId ∧ ∀ c', found = some c' → c'.userId = q.userId := by
  cases found with
  | none =>
    obtain rfl := Option.some.inj h
    exact ⟨rfl, by rintro c' ⟨⟩⟩
  | some c' =>
    rw [ensureConversation] at h
    split at h
    · next hu =>
      obtain rfl := Option.some.inj h
      refine ⟨hu, ?_⟩
      rintro c' ⟨⟩
      exact hu
    · cases h

/-- The conversation is made, or touched: from here on the turn holds its row. -/
theorem Inv.ensure (h : Inv w) (ht : w.turns pid = some t) (hphase : t.phase = .ensure)
    (hfree : w.conversations.free pid t.question.conversationId) {c : Conversation}
    (hc : ensureConversation (w.conversations.read pid t.question.conversationId) t.question =
      some c) :
    Inv { w.put pid { t with phase := .answer } with
      conversations := w.conversations.write pid t.question.conversationId (some c) } := by
  obtain ⟨hpending, hwritten⟩ := h.no_writes ht (by rw [hphase]; rfl)
  obtain ⟨huser, hfound⟩ := userId_ensureConversation hc
  rw [Rows.read_of_not_pending fun v => hpending _ v] at hfound
  refine h.of_frame ⟨fun _ hu => put_turns_of_ne hu, ?_, fun _ _ _ _ _ => rfl, fun _ _ h => h,
    fun m hm _ => ⟨m, hm, rfl, rfl, rfl⟩, fun _ hm _ _ _ => hm, fun _ _ h => .inl h,
    fun _ h => .inl h, fun _ h => .inl h⟩ ?_ ⟨?_, ?_⟩ h.committed
  · intro u hu k v
    exact Rows.write_pending_other hfree hu
  · intro t' ht'
    obtain rfl := Option.some.inj (put_turns_self.symm.trans ht')
    refine ⟨?_, by rintro ⟨⟩, by rintro ⟨⟩, (h.turns pid t ht).history⟩
    intro _
    exact ⟨c, Rows.write_pending_self, huser, hfound⟩
  · intro k v hv
    by_cases hk : k = t.question.conversationId
    · exact ⟨_, put_turns_self, rfl, hk.symm⟩
    · exact absurd ((Rows.write_pending_of_ne hk).symm.trans hv) (hpending k v)
  · intro m hm hwriter
    exact absurd hwriter (hwritten m hm)

/-- A message is written. -/
theorem Inv.startMessage (h : Inv w) (ht : w.turns pid = some t)
    (hphase : t.phase.writing = true) {m : ChatMessage} {next : Phase}
    (hconv : m.conversationId = t.question.conversationId) (hnext : next.writing = true)
    (hstarted : next ≠ .started)
    (hid : next.answered = true → m.id = t.question.messageId ∨ t.phase.answered = true)
    (hs : w.startMessage pid t m next = some w') : Inv w' := by
  have hinv := h.turns pid t ht
  rw [World.startMessage] at hs
  split at hs
  · next hnone =>
    obtain rfl := Option.some.inj hs
    have hfresh : ∀ m' ∈ w.messages, m'.id ≠ m.id := Table.find_eq_none.mp hnone
    have hkeep : ∀ m' ∈ w.messages, m' ∈ w.messages.put ⟨m, [], t.question.userId, some pid⟩ :=
      fun m' hm' => Table.mem_put.mpr (.inr ⟨hm', hfresh m' hm'⟩)
    have hnew : (⟨m, [], t.question.userId, some pid⟩ : Row) ∈
        w.messages.put ⟨m, [], t.question.userId, some pid⟩ := Table.mem_put.mpr (.inl rfl)
    refine h.of_frame ⟨fun _ hu => put_turns_of_ne hu, fun _ _ _ _ => Iff.rfl,
      fun _ _ _ _ _ => rfl, fun _ _ h => h, fun m' hm' _ => ⟨m', hkeep m' hm', rfl, rfl, rfl⟩, ?_,
      fun _ _ h => .inl h, fun _ h => .inl h, fun _ h => .inl h⟩ ?_ ⟨?_, ?_⟩ ?_
    · intro m' hm' u hu hwriter
      rcases Table.mem_put.mp hm' with rfl | ⟨hm', -⟩
      · exact absurd (Option.some.inj hwriter).symm hu
      · exact hm'
    · intro t' ht'
      obtain rfl := Option.some.inj (put_turns_self.symm.trans ht')
      refine ⟨fun _ => hinv.holds hphase, ?_, fun he => absurd he hstarted, hinv.history⟩
      intro hanswered
      rcases hid hanswered with hid | hbefore
      · exact ⟨_, hnew, hid, rfl, rfl⟩
      · obtain ⟨m', hm', hm''⟩ := hinv.answered hbefore
        exact ⟨m', hkeep m' hm', hm''⟩
    · intro k v hv
      obtain ⟨t₀, ht₀, -, hk⟩ := (h.writes pid).pending k v hv
      obtain rfl := Option.some.inj (ht.symm.trans ht₀)
      exact ⟨_, put_turns_self, hnext, hk⟩
    · intro m' hm' hwriter
      rcases Table.mem_put.mp hm' with rfl | ⟨hm', -⟩
      · exact ⟨_, put_turns_self, hnext, rfl, hconv⟩
      · obtain ⟨t₀, ht₀, -, hm''⟩ := (h.writes pid).written m' hm' hwriter
        obtain rfl := Option.some.inj (ht.symm.trans ht₀)
        exact ⟨_, put_turns_self, hnext, hm''⟩
    · intro m' hm' hwriter
      rcases Table.mem_put.mp hm' with rfl | ⟨hm', -⟩
      · cases hwriter
      · exact h.committed m' hm' hwriter
  · split at hs
    · cases hs
    · obtain rfl := Option.some.inj hs
      exact h.abort ht

/-- What a turn that holds its conversation reads there, its user's turns have written. -/
theorem Inv.author_of_seen (h : Inv w) (ht : w.turns pid = some t)
    (hphase : t.phase.writing = true) {m : Row}
    (hm : m ∈ history (seen w.messages pid) t.question.conversationId limit) :
    m.author = t.question.userId := by
  obtain ⟨hseen, hconv⟩ := List.mem_filter.mp (mem_of_mem_latest (List.mem_reverse.mp hm))
  obtain ⟨hmem, hwriter⟩ := List.mem_filter.mp hseen
  have hconv : m.conversationId = t.question.conversationId := of_decide_eq_true hconv
  rcases of_decide_eq_true hwriter with hwriter | hwriter
  · obtain ⟨c, hc, huser⟩ := h.committed m hmem hwriter
    obtain ⟨-, -, -, hcommitted⟩ := (h.turns pid t ht).holds hphase
    rw [hconv] at hc
    exact huser.symm.trans (hcommitted c hc)
  · obtain ⟨t', ht', -, hauthor, -⟩ := (h.writes pid).written m hmem hwriter
    obtain rfl := Option.some.inj (ht.symm.trans ht')
    exact hauthor

/-- What a commit makes of the messages. -/
theorem mem_commit {m : Row} : m ∈ w.messages.updateWhere (fun m => m.writer = some pid)
      (fun m => { m with writer := none }) (fun _ => rfl) ↔
    (m ∈ w.messages ∧ m.writer ≠ some pid) ∨
      ∃ m' ∈ w.messages, m'.writer = some pid ∧ m = { m' with writer := none } := by
  rw [Table.mem_updateWhere]
  constructor
  · rintro ⟨x, hx, rfl⟩
    by_cases hw : x.writer = some pid
    · rw [if_pos (decide_eq_true hw)]
      exact .inr ⟨x, hx, hw, rfl⟩
    · rw [if_neg (by simpa using hw)]
      exact .inl ⟨hx, hw⟩
  · rintro (⟨hm, hw⟩ | ⟨x, hx, hw, rfl⟩)
    · exact ⟨m, hm, by rw [if_neg (by simpa using hw)]⟩
    · exact ⟨x, hx, by rw [if_pos (decide_eq_true hw)]⟩

def World.commit (w : World) (pid : ℕ) (t : Turn) : World :=
  { w.put pid { t with phase := .started } with
    conversations := w.conversations.commit pid
    messages := w.messages.updateWhere (fun m => m.writer = some pid)
      (fun m => { m with writer := none }) fun _ => rfl }

/-- A commit makes the conversation the turn's user's, if it is not that already, -/
theorem Inv.first_commit (h : Inv w) (ht : w.turns pid = some t) (hphase : t.phase = .commit) :
    First (w.commit pid t) t.question.conversationId t.question.userId := by
  obtain ⟨c, hpending, huser, -⟩ := (h.turns pid t ht).holds (by rw [hphase]; rfl)
  exact ⟨c, Rows.commit_committed_of_pending hpending, huser⟩

/-- and leaves everybody what is theirs. -/
theorem Inv.first_of_commit (h : Inv w) (ht : w.turns pid = some t) (hphase : t.phase = .commit)
    {userId : String} (hfirst : First w k userId) : First (w.commit pid t) k userId := by
  obtain ⟨c', hc', hu⟩ := hfirst
  by_cases hk : k = t.question.conversationId
  · subst hk
    obtain ⟨-, -, -, hcommitted⟩ := (h.turns pid t ht).holds (by rw [hphase]; rfl)
    rw [← hu, hcommitted c' hc']
    exact h.first_commit ht hphase
  · refine ⟨c', ?_, hu⟩
    refine (Rows.commit_committed_of_not_pending fun v hv => hk ?_).trans hc'
    obtain ⟨t', ht', -, hk'⟩ := (h.writes pid).pending k v hv
    obtain rfl := Option.some.inj (ht.symm.trans ht')
    exact hk'.symm

theorem Inv.commit (h : Inv w) (ht : w.turns pid = some t) (hphase : t.phase = .commit) :
    Inv (w.commit pid t) := by
  have hinv := h.turns pid t ht
  have hself := h.first_commit ht hphase
  have hfirst : ∀ k userId, First w k userId → First (w.commit pid t) k userId :=
    fun _ _ hf => h.first_of_commit ht hphase hf
  refine h.of_frame ⟨fun _ hu => put_turns_of_ne hu, ?_, ?_, hfirst, ?_, ?_, fun _ _ h => .inl h,
    fun _ h => .inl h, fun _ h => .inl h⟩ ?_ ⟨?_, ?_⟩ ?_
  · intro u hu k v
    exact Rows.commit_pending_iff.trans (and_iff_right hu)
  · intro u hu k v hv
    exact Rows.commit_committed_other hu hv
  · intro m hm hwriter
    exact ⟨m, mem_commit.mpr (.inl ⟨hm, hwriter⟩), rfl, rfl, rfl⟩
  · intro m hm u _ hwriter
    rcases mem_commit.mp hm with ⟨hm, -⟩ | ⟨m', -, -, rfl⟩
    · exact hm
    · cases hwriter
  · intro t' ht'
    obtain rfl := Option.some.inj (put_turns_self.symm.trans ht')
    refine ⟨by rintro ⟨⟩, by rintro ⟨⟩, ?_, hinv.history⟩
    intro _
    obtain ⟨m, hm, hid, hauthor, hwriter⟩ := hinv.answered (by rw [hphase]; rfl)
    exact ⟨⟨_, mem_commit.mpr (.inr ⟨m, hm, hwriter, rfl⟩), hid, hauthor, rfl⟩, hself⟩
  · intro k v hv
    exact absurd hv (Rows.idle_commit k v)
  · intro m hm hwriter
    rcases mem_commit.mp hm with ⟨-, hne⟩ | ⟨m', -, -, rfl⟩
    · exact absurd hwriter hne
    · cases hwriter
  · intro m hm hwriter
    rcases mem_commit.mp hm with ⟨hm, -⟩ | ⟨m', hm', hwriter', rfl⟩
    · exact hfirst _ _ (h.committed m hm hwriter)
    · obtain ⟨t', ht', -, hauthor, hconv⟩ := (h.writes pid).written m' hm' hwriter'
      obtain rfl := Option.some.inj (ht.symm.trans ht')
      show First (w.commit pid _) m'.conversationId m'.author
      rw [hconv, hauthor]
      exact hself

theorem Inv.run (h : Inv w) (ht : w.turns pid = some t) (hs : w.run limit pid t = some w') :
    Inv w' := by
  have hinv := h.turns pid t ht
  rw [World.run] at hs
  cases hphase : t.phase with
  | ensure =>
    simp only [hphase] at hs
    split at hs
    · next hfree =>
      split at hs
      · next c hc =>
        obtain rfl := Option.some.inj hs
        exact h.ensure ht hphase hfree hc
      · obtain rfl := Option.some.inj hs
        exact h.abort ht
    · cases hs
  | answer =>
    simp only [hphase] at hs
    exact h.startMessage ht (by rw [hphase]; rfl) rfl rfl (by decide) (fun _ => .inl rfl) hs
  | ask =>
    simp only [hphase] at hs
    exact h.startMessage ht (by rw [hphase]; rfl) rfl rfl (by decide)
      (fun _ => .inr (by rw [hphase]; rfl)) hs
  | loadHistory =>
    simp only [hphase] at hs
    obtain rfl := Option.some.inj hs
    have hwriting : t.phase.writing = true := by rw [hphase]; rfl
    refine h.put ht rfl hwriting.symm ⟨fun _ => hinv.holds hwriting, ?_, by rintro ⟨⟩, ?_⟩
    · intro _
      exact hinv.answered (by rw [hphase]; rfl)
    · intro m hm
      exact h.author_of_seen ht hwriting (List.mem_filter.mp hm).1
  | commit =>
    simp only [hphase] at hs
    obtain rfl := Option.some.inj hs
    exact h.commit ht hphase
  | started => simp [hphase] at hs
  | ended => simp [hphase] at hs

/-! ### Every run -/

theorem mem_finishMessage {messages : Messages} {messageId content : String} {status : Status}
    {itemIds : List String} {m : Row} :
    m ∈ finishMessage messages messageId content status itemIds ↔ ∃ x ∈ messages,
      m = if x.id = messageId && x.status = .streaming && x.writer = none then
        { x with content, status, itemIds } else x :=
  Table.mem_updateWhere

/-- An answer that settles is in nobody's transaction. -/
theorem frame_settle {messageId content : String} {status : Status} {itemIds : List String} :
    Frame w { w with messages := finishMessage w.messages messageId content status itemIds } u := by
  refine ⟨fun _ _ => rfl, fun _ _ _ _ => Iff.rfl, fun _ _ _ _ _ => rfl, fun _ _ h => h, ?_, ?_,
    fun _ _ h => .inl h, fun _ h => .inl h, fun _ h => .inl h⟩
  · intro m hm _
    refine ⟨_, mem_finishMessage.mpr ⟨m, hm, rfl⟩, ?_⟩
    split <;> exact ⟨rfl, rfl, rfl⟩
  · intro m hm v _ hwriter
    obtain ⟨x, hx, rfl⟩ := mem_finishMessage.mp hm
    split
    · next hp =>
      rw [if_pos hp] at hwriter
      have hnone : x.writer = none := by
        rw [Bool.and_eq_true] at hp
        exact of_decide_eq_true hp.2
      rw [hnone] at hwriter
      cases hwriter
    · exact hx

theorem Inv.settle (h : Inv w) {messageId content : String} {status : Status}
    {itemIds : List String} :
    Inv { w with messages := finishMessage w.messages messageId content status itemIds } := by
  refine h.of_frames (fun _ => frame_settle) ?_
  intro m hm hwriter
  obtain ⟨x, hx, rfl⟩ := mem_finishMessage.mp hm
  have hx' : x.writer = none := by
    split at hwriter
    · exact hwriter
    · exact hwriter
  have hfirst := h.committed x hx hx'
  split
  · exact hfirst
  · exact hfirst

/-- Who is found to own a message has written it. -/
theorem Inv.owned_of_ownerOf (h : Inv w) {messageId userId : String}
    (ho : w.ownerOf messageId = some userId) : Owned w ⟨messageId, userId⟩ := by
  obtain ⟨m, hm, ho⟩ := Option.bind_eq_some_iff.mp ho
  obtain ⟨hfind, hwriter⟩ := Option.filter_eq_some_iff.mp hm
  obtain ⟨c, hc, rfl⟩ := Option.map_eq_some_iff.mp ho
  obtain ⟨hmem, hid⟩ := Table.find_eq_some.mp hfind
  have hwriter : m.writer = none := of_decide_eq_true hwriter
  obtain ⟨c', hc', huser⟩ := h.committed m hmem hwriter
  obtain rfl := Option.some.inj (hc.symm.trans hc')
  exact ⟨m, hmem, hid, huser.symm, hwriter⟩

theorem Inv.init : Inv .init := by
  refine ⟨?_, ?_, ?_, ?_, ?_, ?_⟩
  · rintro pid t ⟨⟩
  · intro pid
    exact ⟨by rintro k v ⟨⟩, by rintro m ⟨⟩⟩
  · rintro m ⟨⟩
  · rintro rid g ⟨⟩
  · rintro g ⟨⟩
  · rintro g ⟨⟩

theorem Inv.step {e : Event} (h : Inv w) (hs : Conversations.step limit w e = some w') :
    Inv w' := by
  cases e with
  | ask pid q =>
    rw [Conversations.step] at hs
    split at hs
    · next hnone =>
      obtain rfl := Option.some.inj hs
      refine h.of_frame frame_put ?_ ⟨?_, ?_⟩ h.committed
      · intro t ht
        obtain rfl := Option.some.inj (put_turns_self.symm.trans ht)
        exact ⟨by rintro ⟨⟩, by rintro ⟨⟩, by rintro ⟨⟩, by rintro m ⟨⟩⟩
      · intro k v hv
        obtain ⟨t, ht, -⟩ := (h.writes pid).pending k v hv
        rw [hnone] at ht
        cases ht
      · intro m hm hwriter
        obtain ⟨t, ht, -⟩ := (h.writes pid).written m hm hwriter
        rw [hnone] at ht
        cases ht
    · cases hs
  | run pid =>
    obtain ⟨t, ht, hs⟩ := Option.bind_eq_some_iff.mp hs
    exact h.run ht hs
  | fail pid =>
    obtain ⟨t, ht, rfl⟩ := Option.map_eq_some_iff.mp hs
    exact h.abort ht
  | mint pid =>
    obtain ⟨t, ht, hs⟩ := Option.bind_eq_some_iff.mp hs
    split at hs
    · next hphase =>
      obtain rfl := Option.some.inj hs
      refine h.of_frames (fun u => frame_give (fun _ _ h => .inl h) ?_ fun _ h => .inl h) h.committed
      intro g hg
      rcases List.mem_cons.mp hg with rfl | hg
      · exact .inr ((h.turns pid t ht).started hphase).1
      · exact .inl hg
    · cases hs
  | settle pid content status itemIds =>
    obtain ⟨t, ht, hs⟩ := Option.bind_eq_some_iff.mp hs
    split at hs
    · obtain rfl := Option.some.inj hs
      exact h.settle
    · cases hs
  | lookUp rid messageId userId =>
    rw [Conversations.step] at hs
    split at hs
    · next ho =>
      obtain rfl := Option.some.inj hs
      refine h.of_frames (fun u => frame_give ?_ (fun _ h => .inl h) fun _ h => .inl h) h.committed
      intro rid' g hg
      by_cases hr : rid' = rid
      · subst hr
        rw [Function.update_self] at hg
        obtain rfl := Option.some.inj hg
        exact .inr (h.owned_of_ownerOf ho)
      · rw [Function.update_of_ne hr] at hg
        exact .inl hg
    · obtain rfl := Option.some.inj hs
      exact h
  | price rid =>
    obtain ⟨g, hg, rfl⟩ := Option.map_eq_some_iff.mp hs
    refine h.of_frames (fun u => frame_give ?_ (fun _ h => .inl h) ?_) h.committed
    · intro rid' g' hg'
      by_cases hr : rid' = rid
      · subst hr
        rw [Function.update_self] at hg'
        cases hg'
      · rw [Function.update_of_ne hr] at hg'
        exact .inl hg'
    · intro g' hg'
      rcases List.mem_cons.mp hg' with rfl | hg'
      · exact .inr (h.readers rid _ hg)
      · exact .inl hg'

/-- The committed rows are the same. -/
structure SameRows (w w' : World) : Prop where
  conversations : w'.conversations.committed = w.conversations.committed
  messages : ∀ m : Row, m.writer = none → (m ∈ w'.messages ↔ m ∈ w.messages)

theorem sameRows_abort : SameRows w (w.abort pid t) := by
  refine ⟨rfl, fun m hwriter => Table.mem_deleteWhere.trans (and_iff_left ?_)⟩
  rw [hwriter]
  rfl

theorem sameRows_startMessage {m : ChatMessage} {next : Phase}
    (hs : w.startMessage pid t m next = some w') : SameRows w w' := by
  rw [World.startMessage] at hs
  split at hs
  · next hnone =>
    obtain rfl := Option.some.inj hs
    refine ⟨rfl, fun m' hwriter => Table.mem_put.trans ⟨?_, fun hm => .inr ⟨hm, ?_⟩⟩⟩
    · rintro (rfl | ⟨hm, -⟩)
      · cases hwriter
      · exact hm
    · exact Table.find_eq_none.mp hnone m' hm
  · split at hs
    · cases hs
    · obtain rfl := Option.some.inj hs
      exact sameRows_abort

/-- What a turn changes, it changes when it commits. -/
theorem run_cases (hs : w.run limit pid t = some w') :
    SameRows w w' ∨ t.phase = .commit ∧ w' = w.commit pid t := by
  rw [World.run] at hs
  cases hphase : t.phase with
  | ensure =>
    simp only [hphase] at hs
    split at hs
    · split at hs
      · obtain rfl := Option.some.inj hs
        exact .inl ⟨rfl, fun _ _ => Iff.rfl⟩
      · obtain rfl := Option.some.inj hs
        exact .inl sameRows_abort
    · cases hs
  | answer =>
    simp only [hphase] at hs
    exact .inl (sameRows_startMessage hs)
  | ask =>
    simp only [hphase] at hs
    exact .inl (sameRows_startMessage hs)
  | loadHistory =>
    simp only [hphase] at hs
    obtain rfl := Option.some.inj hs
    exact .inl ⟨rfl, fun _ _ => Iff.rfl⟩
  | commit =>
    simp only [hphase] at hs
    exact .inr ⟨rfl, (Option.some.inj hs).symm⟩
  | started => simp [hphase] at hs
  | ended => simp [hphase] at hs

/-- **A turn changes rows** of its user's conversation only. -/
theorem Inv.first_of_step (h : Inv w) {e : Event} (he : e.turn = some pid)
    (ht : w.turns pid = some t) (hs : Conversations.step limit w e = some w') :
    SameRows w w' ∨ First w' t.question.conversationId t.question.userId := by
  cases e with
  | run pid' =>
    obtain rfl := Option.some.inj he
    obtain ⟨t', ht', hs⟩ := Option.bind_eq_some_iff.mp hs
    obtain rfl := Option.some.inj (ht.symm.trans ht')
    rcases run_cases hs with hsame | ⟨hphase, rfl⟩
    · exact .inl hsame
    · exact .inr (h.first_commit ht hphase)
  | fail pid' =>
    obtain rfl := Option.some.inj he
    obtain ⟨t', -, rfl⟩ := Option.map_eq_some_iff.mp hs
    exact .inl sameRows_abort
  | mint pid' =>
    obtain ⟨t', -, hs⟩ := Option.bind_eq_some_iff.mp hs
    split at hs
    · obtain rfl := Option.some.inj hs
      exact .inl ⟨rfl, fun _ _ => Iff.rfl⟩
    · cases hs
  | settle pid' content status itemIds =>
    obtain rfl := Option.some.inj he
    obtain ⟨t', ht', hs⟩ := Option.bind_eq_some_iff.mp hs
    obtain rfl := Option.some.inj (ht.symm.trans ht')
    split at hs
    · next hphase =>
      obtain rfl := Option.some.inj hs
      exact .inr ((h.turns _ t ht).started hphase).2
    · cases hs
  | ask pid' q => cases he
  | lookUp rid messageId userId => cases he
  | price rid => cases he

/-- The first user of a conversation stays its first user. -/
theorem Inv.first_step (h : Inv w) {e : Event} {userId : String} (hfirst : First w k userId)
    (hs : Conversations.step limit w e = some w') : First w' k userId := by
  cases e with
  | run pid =>
    obtain ⟨t, ht, hs⟩ := Option.bind_eq_some_iff.mp hs
    rcases run_cases hs with hsame | ⟨hphase, rfl⟩
    · rw [First, hsame.conversations]
      exact hfirst
    · exact h.first_of_commit ht hphase hfirst
  | fail pid =>
    obtain ⟨t, -, rfl⟩ := Option.map_eq_some_iff.mp hs
    exact hfirst
  | ask pid q =>
    rw [Conversations.step] at hs
    split at hs
    · obtain rfl := Option.some.inj hs
      exact hfirst
    · cases hs
  | mint pid =>
    obtain ⟨t, -, hs⟩ := Option.bind_eq_some_iff.mp hs
    split at hs
    · obtain rfl := Option.some.inj hs
      exact hfirst
    · cases hs
  | settle pid content status itemIds =>
    obtain ⟨t, -, hs⟩ := Option.bind_eq_some_iff.mp hs
    split at hs
    · obtain rfl := Option.some.inj hs
      exact hfirst
    · cases hs
  | lookUp rid messageId userId =>
    rw [Conversations.step] at hs
    split at hs
    · obtain rfl := Option.some.inj hs
      exact hfirst
    · obtain rfl := Option.some.inj hs
      exact hfirst
  | price rid =>
    obtain ⟨g, -, rfl⟩ := Option.map_eq_some_iff.mp hs
    exact hfirst

theorem Inv.first_run (h : Inv w) {es : List Event} {userId : String} (hfirst : First w k userId)
    (hrun : Run (Conversations.step limit) Always w es w') : First w' k userId := by
  have hboth : Inv w' ∧ First w' k userId := by
    refine hrun.invariant (I := fun w => Inv w ∧ First w k userId) ⟨h, hfirst⟩ ?_
    intro x e y hx _ hs
    exact ⟨hx.1.step hs, hx.1.first_step hx.2 hs⟩
  exact hboth.2

/-- **Isolation.**  Every message in the history of a turn was written by a turn of its user;
tickets and cards are given to the user whose turn wrote the message; and a turn whose conversation
is, or comes to be, somebody else's changes no row. -/
theorem isolated_of_run {es : List Event} (hrun : Run (step limit) Always .init es w) :
    (∀ pid t, w.turns pid = some t → ∀ m ∈ t.history, m.author = t.question.userId) ∧
    (∀ g, g ∈ w.tickets ∨ g ∈ w.cards →
      ∃ m ∈ w.messages, m.id = g.messageId ∧ m.author = g.userId) ∧
    ∀ e pid t w' es' u c, e.turn = some pid → w.turns pid = some t → step limit w e = some w' →
      Run (step limit) Always w' es' u →
      u.conversations.committed t.question.conversationId = some c →
      c.userId ≠ t.question.userId → SameRows w w' := by
  have hinv : Inv w := hrun.invariant (I := Inv) .init fun _ _ _ h _ hs => h.step hs
  refine ⟨fun pid t ht => (hinv.turns pid t ht).history, ?_, ?_⟩
  · intro g hg
    obtain ⟨m, hm, hid, hauthor, -⟩ := hg.elim (hinv.tickets g) (hinv.cards g)
    exact ⟨m, hm, hid, hauthor⟩
  · intro e pid t w' es' u c he ht hs hrun' hc hne
    rcases hinv.first_of_step he ht hs with hsame | hfirst
    · exact hsame
    · obtain ⟨c', hc', huser⟩ := (hinv.step hs).first_run hfirst hrun'
      obtain rfl := Option.some.inj (hc.symm.trans hc')
      exact absurd huser hne

/-- Two users use one identifier first, and one of them is refused. -/
def firstUses : List Event :=
  [.ask 0 ⟨"u1", "c1", "m1", "a1", "which naan?", "lahore", 5⟩,
    .ask 1 ⟨"u2", "c1", "m2", "a2", "and a curry?", "lahore", 6⟩,
    .run 0, .run 0, .run 0, .run 0, .run 0, .run 1, .mint 0, .settle 0 "Garlic." .complete ["i1"],
    .lookUp 0 "m1" "u1", .lookUp 1 "m1" "u2", .price 0]

theorem isolated_of_run_firstUses : ∃ w, Run (step 6) Always .init firstUses w ∧
    w.cards = [⟨"m1", "u1"⟩] ∧ ∀ g, g ∈ w.tickets ∨ g ∈ w.cards →
      ∃ m ∈ w.messages, m.id = g.messageId ∧ m.author = g.userId := by
  obtain ⟨w, hw, hp⟩ : ∃ w, Run (step 6) Always .init firstUses w ∧
      decide (w.cards = [⟨"m1", "u1"⟩]) = true := exists_run_of_execOk (by decide)
  exact ⟨w, hw, of_decide_eq_true hp, (isolated_of_run hw).2.1⟩

end Assistant.Conversations
