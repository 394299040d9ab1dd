/-
Conversations, and the guard that a declared condition arms.

* `ChatMessage`, `history` — the stored messages, and the latest of them;
* `World`, `Event`, `step` — turns that start, are guarded, retrieve, generate and settle, of any
  number of conversations and in any order;
* `Declared` — a customer has said what `safety_check` refuses;
* `InWindow` — the condition on a turn that starts: fewer messages than the window holds have been
  stamped since some message that is refused;
* `armed_of_run` — the later turns are refused, and call no provider;
* `disarmed` — with the window of six messages, the fourth question is answered.

What a model answers, and whether a turn settles, is left open.
-/
import SmartFoodOps.Lib.Dict
import SmartFoodOps.Lib.Machine
import SmartFoodOps.Assistant.Policy
import SmartFoodOps.Assistant.Turns
import Mathlib.Data.Prod.Lex

open Machine Keyed

namespace Assistant.Chat

/-! ### Stored messages -/

inductive Role
  | user
  | assistant
  deriving DecidableEq

/-- A row of `messages`. -/
structure ChatMessage where
  id : String
  conversationId : String
  role : Role
  content : String
  status : Status
  createdAt : ℕ
  deriving DecidableEq

abbrev Messages := Table ChatMessage String ChatMessage.id

/-- `ORDER BY created_at, id`. -/
def ChatMessage.stamp (m : ChatMessage) : ℕ ×ₗ String := toLex (m.createdAt, m.id)

def inConversation (messages : Messages) (conversationId : String) : List ChatMessage :=
  messages.rows.filter fun m => m.conversationId = conversationId

/-- `ConversationRepo.history`: the latest messages, the oldest first. -/
def history (messages : Messages) (conversationId : String) (limit : ℕ) : List ChatMessage :=
  (latest ChatMessage.stamp limit (inConversation messages conversationId)).reverse

/-! ### Turns -/

structure Conversation where
  id : String
  userId : String
  deriving DecidableEq

/-- How far a turn's graph has come. -/
inductive Phase
  | guarding
  | refused
  | retrieving
  | generating
  | ended
  deriving DecidableEq

structure Running where
  messageId : String
  conversationId : String
  question : String
  history : List String
  phase : Phase
  deriving DecidableEq

/-- A call of a provider, by the turn that made it. -/
structure Call where
  messageId : String
  conversationId : String
  deriving DecidableEq

structure World where
  conversations : Table Conversation String Conversation.id
  messages : Messages
  turns : Table Running String Running.messageId
  calls : List Call

def World.init : World := ⟨.empty, .empty, .empty, []⟩

inductive Event
  /-- A question is asked. -/
  | start (userId conversationId messageId askedId question : String) (now : ℕ)
  | guard (messageId : String)
  /-- The question is embedded, and passages are found or not. -/
  | retrieve (messageId : String) (found : Bool)
  | generate (messageId : String)
  /-- The answer's row is settled. -/
  | settle (messageId content : String) (failed : Bool)

/-- The two rows of a turn. -/
def World.ask (w : World) (conversationId messageId askedId question : String) (now : ℕ) :
    Messages :=
  (w.messages.put ⟨messageId, conversationId, .assistant, "", .streaming, now + 1⟩).put
    ⟨askedId, conversationId, .user, question, .complete, now⟩

section

variable (isWord : Char → Bool) (limit : ℕ)

/-- Somebody else's conversation, or an identifier that is taken. -/
def World.Rejects (w : World) (userId conversationId messageId askedId : String) : Prop :=
  (w.conversations.find conversationId).any (fun c => c.userId ≠ userId) ∨
    (w.messages.find messageId).isSome ∨ (w.messages.find askedId).isSome ∨ messageId = askedId

instance (w : World) (userId conversationId messageId askedId : String) :
    Decidable (w.Rejects userId conversationId messageId askedId) :=
  inferInstanceAs (Decidable (_ ∨ _))

/-- `ChatService.start`: a turn that is rejected writes nothing. -/
def World.start (w : World) (userId conversationId messageId askedId question : String)
    (now : ℕ) : World :=
  if w.Rejects userId conversationId messageId askedId then w
  else
    let messages := w.ask conversationId messageId askedId question now
    let before := (history messages conversationId limit).filter fun m =>
      m.id ≠ messageId && m.id ≠ askedId && m.content ≠ ""
    { w with
      conversations := w.conversations.insertOrIgnore ⟨conversationId, userId⟩
      messages := messages
      turns := w.turns.put
        ⟨messageId, conversationId, question, before.map ChatMessage.content, .guarding⟩ }

def World.advance (w : World) (t : Running) (phase : Phase) : World :=
  { w with turns := w.turns.put { t with phase } }

def World.call (w : World) (t : Running) : World :=
  { w with calls := ⟨t.messageId, t.conversationId⟩ :: w.calls }

/-- `finish_message`: a row that is streaming is settled. -/
def settleRow (messages : Messages) (messageId content : String) (failed : Bool) : Messages :=
  messages.modify messageId (fun m => if m.status = .streaming then
    { m with content, status := if failed then .failed else .complete } else m)
    fun m => by split <;> rfl

def step (w : World) : Event → Option World
  | .start userId conversationId messageId askedId question now =>
    some (w.start limit userId conversationId messageId askedId question now)
  | .guard messageId =>
    (w.turns.find messageId).bind fun t =>
      if t.phase = .guarding then
        some (w.advance t
          (if (safetyCheck isWord t.question t.history).refuse then .refused else .retrieving))
      else none
  | .retrieve messageId found =>
    (w.turns.find messageId).bind fun t =>
      if t.phase = .retrieving then
        some ((w.advance t (if found then .generating else .ended)).call t)
      else none
  | .generate messageId =>
    (w.turns.find messageId).bind fun t =>
      if t.phase = .generating then some ((w.advance t .ended).call t) else none
  | .settle messageId content failed =>
    (w.turns.find messageId).map fun t =>
      { w.advance t .ended with messages := settleRow w.messages messageId content failed }

/-! ### The condition -/

def refuses (text : String) : Bool := (verdict isWord text).refuse

/-- A customer has said in the conversation what is refused. -/
def Declared (w : World) (conversationId : String) : Prop :=
  ∃ m ∈ w.messages.rows, m.conversationId = conversationId ∧ m.role = .user ∧
    refuses isWord m.content = true

instance (w : World) (conversationId : String) : Decidable (Declared isWord w conversationId) :=
  inferInstanceAs (Decidable (∃ m ∈ w.messages.rows, _))

/-- Once a condition was declared, a turn starts with a question that is refused, or fewer messages
than the window holds, the turn's two among them, come after some message that is refused. -/
def InWindow (w : World) : Event → Prop
  | .start userId conversationId messageId askedId question now =>
    ¬ w.Rejects userId conversationId messageId askedId → Declared isWord w conversationId →
      refuses isWord question = true ∨
      ∃ m ∈ w.messages.rows, m.conversationId = conversationId ∧
        refuses isWord m.content = true ∧
        (inConversation (w.ask conversationId messageId askedId question now) conversationId).countP
          (fun m' => m.stamp < m'.stamp) < limit
  | _ => True

instance (w : World) : (e : Event) → Decidable (InWindow isWord limit w e)
  | .start _ _ _ _ _ _ => inferInstanceAs (Decidable (_ → _))
  | .guard _ | .retrieve _ _ | .generate _ | .settle _ _ _ => inferInstanceAs (Decidable True)

end

/-! ### Messages -/

variable {isWord : Char → Bool} {limit : ℕ} {w w' : World} {c : String} {e : Event}

theorem refuses_empty : refuses isWord "" = false := rfl

/-- A message that has fewer than `limit` after it is in the history. -/
theorem mem_history {messages : Messages} {m : ChatMessage} (hm : m ∈ messages)
    (hc : m.conversationId = c)
    (hn : (inConversation messages c).countP (fun m' => m.stamp < m'.stamp) < limit) :
    m ∈ history messages c limit := by
  refine List.mem_reverse.mpr (mem_latest ⟨messages.nodup.filter _, ?_⟩ ?_ hn)
  · intro x hx y hy he
    have hid : x.id = y.id := (Prod.ext_iff.mp (toLex.injective he)).2
    exact Table.eq_of_key (List.mem_filter.mp hx).1 (List.mem_filter.mp hy).1 hid
  · exact List.mem_filter.mpr ⟨hm, decide_eq_true hc⟩

/-- What has been asked stays; an identifier that is new takes nobody's place. -/
theorem mem_ask {messageId askedId question : String} {now : ℕ} {userId : String}
    (hfresh : ¬ w.Rejects userId c messageId askedId) {m : ChatMessage} (hm : m ∈ w.messages) :
    m ∈ w.ask c messageId askedId question now ∧ m.id ≠ messageId ∧ m.id ≠ askedId := by
  unfold World.Rejects at hfresh
  simp only [not_or] at hfresh
  obtain ⟨-, hmessage, hasked, -⟩ := hfresh
  have hne : ∀ {k}, ¬ (w.messages.find k).isSome → m.id ≠ k := by
    intro k hk hid
    rw [Option.not_isSome_iff_eq_none] at hk
    exact Table.find_eq_none.mp hk m hm hid
  exact ⟨Table.mem_put.mpr (.inr ⟨Table.mem_put.mpr (.inr ⟨hm, hne hmessage⟩), hne hasked⟩),
    hne hmessage, hne hasked⟩

/-! ### What a step does -/

/-- Of the world a step changes one thing: a turn is accepted, or goes on, or is settled. -/
theorem step_cases (hs : step isWord limit w e = some w') :
    w' = w ∨
    (∃ userId conversationId messageId askedId question now,
      e = .start userId conversationId messageId askedId question now ∧
      ¬ w.Rejects userId conversationId messageId askedId ∧
      w' = w.start limit userId conversationId messageId askedId question now) ∨
    (∃ t ∈ w.turns, t.phase = .guarding ∧ w' = w.advance t
      (if (safetyCheck isWord t.question t.history).refuse then .refused else .retrieving)) ∨
    (∃ t ∈ w.turns, ∃ phase, (t.phase = .retrieving ∨ t.phase = .generating) ∧
      w' = (w.advance t phase).call t) ∨
    (∃ t ∈ w.turns, ∃ messageId content failed,
      w' = { w.advance t .ended with messages := settleRow w.messages messageId content failed }) := by
  have hturn : ∀ {messageId t}, w.turns.find messageId = some t → t ∈ w.turns :=
    fun h => (Table.find_eq_some.mp h).1
  cases e with
  | start userId conversationId messageId askedId question now =>
    cases hs
    by_cases hr : w.Rejects userId conversationId messageId askedId
    · exact .inl (if_pos hr)
    · exact .inr (.inl ⟨_, _, _, _, _, _, rfl, hr, rfl⟩)
  | guard messageId =>
    obtain ⟨t, ht, hs⟩ := Option.bind_eq_some_iff.mp hs
    split at hs
    · next hphase =>
      cases hs
      exact .inr (.inr (.inl ⟨t, hturn ht, hphase, rfl⟩))
    · cases hs
  | retrieve messageId found =>
    obtain ⟨t, ht, hs⟩ := Option.bind_eq_some_iff.mp hs
    split at hs
    · next hphase =>
      cases hs
      exact .inr (.inr (.inr (.inl ⟨t, hturn ht, _, .inl hphase, rfl⟩)))
    · cases hs
  | generate messageId =>
    obtain ⟨t, ht, hs⟩ := Option.bind_eq_some_iff.mp hs
    split at hs
    · next hphase =>
      cases hs
      exact .inr (.inr (.inr (.inl ⟨t, hturn ht, _, .inr hphase, rfl⟩)))
    · cases hs
  | settle messageId content failed =>
    obtain ⟨t, ht, rfl⟩ := Option.map_eq_some_iff.mp hs
    exact .inr (.inr (.inr (.inr ⟨t, hturn ht, _, _, _, rfl⟩)))

theorem start_of_not_rejects {userId messageId askedId question : String} {now : ℕ}
    (hr : ¬ w.Rejects userId c messageId askedId) :
    (w.start limit userId c messageId askedId question now).messages =
        w.ask c messageId askedId question now ∧
      (w.start limit userId c messageId askedId question now).calls = w.calls ∧
      (w.start limit userId c messageId askedId question now).turns = w.turns.put
        ⟨messageId, c, question,
          (((history (w.ask c messageId askedId question now) c limit).filter fun m =>
            m.id ≠ messageId && m.id ≠ askedId && m.content ≠ "").map ChatMessage.content),
          .guarding⟩ := by
  unfold World.start
  rw [if_neg hr]
  exact ⟨rfl, rfl, rfl⟩

/-! ### The invariant -/

/-- A customer's message is complete from the beginning, and so it never changes. -/
def Said (w : World) : Prop := ∀ m ∈ w.messages, m.role = .user → m.status = .complete

theorem mem_settleRow {messages : Messages} {messageId content : String} {failed : Bool}
    {m : ChatMessage} (hm : m ∈ settleRow messages messageId content failed) :
    ∃ m' ∈ messages, m'.role = m.role ∧ (m'.status ≠ .streaming → m = m') := by
  rcases (Table.mem_modify _).mp hm with ⟨hm, -⟩ | ⟨m', hm', -, rfl⟩
  · exact ⟨m, hm, rfl, fun _ => rfl⟩
  · refine ⟨m', hm', ?_, fun hne => if_neg hne⟩
    split <;> rfl

theorem mem_settleRow_of_complete {messages : Messages} {messageId content : String}
    {failed : Bool} {m : ChatMessage} (hm : m ∈ messages) (hc : m.status = .complete) :
    m ∈ settleRow messages messageId content failed := by
  by_cases hid : m.id = messageId
  · refine (Table.mem_modify _).mpr (.inr ⟨m, hm, hid, (if_neg ?_).symm⟩)
    rw [hc]
    decide
  · exact (Table.mem_modify _).mpr (.inl ⟨hm, hid⟩)

theorem said_step (h : Said w) (hs : step isWord limit w e = some w') : Said w' := by
  rcases step_cases hs with rfl |
    ⟨userId, conversationId, messageId, askedId, question, now, -, hr, rfl⟩ |
    ⟨t, -, -, rfl⟩ | ⟨t, -, phase, -, rfl⟩ | ⟨t, -, messageId, content, failed, rfl⟩
  · exact h
  · intro m hm hrole
    rw [(start_of_not_rejects hr).1] at hm
    rcases Table.mem_put.mp hm with rfl | ⟨hm, -⟩
    · rfl
    · rcases Table.mem_put.mp hm with rfl | ⟨hm, -⟩
      · cases hrole
      · exact h m hm hrole
  · exact h
  · exact h
  · intro m hm hrole
    obtain ⟨m', hm', hrole', hsame⟩ := mem_settleRow hm
    have hcomplete := h m' hm' (hrole'.trans hrole)
    rw [hsame (by rw [hcomplete]; decide)]
    exact hcomplete

theorem declared_step (h : Said w) (hd : Declared isWord w c)
    (hs : step isWord limit w e = some w') : Declared isWord w' c := by
  obtain ⟨m, hm, hconv, hrole, hrefuses⟩ := hd
  rcases step_cases hs with rfl |
    ⟨userId, conversationId, messageId, askedId, question, now, -, hr, rfl⟩ |
    ⟨t, -, -, rfl⟩ | ⟨t, -, phase, -, rfl⟩ | ⟨t, -, messageId, content, failed, rfl⟩
  · exact ⟨m, hm, hconv, hrole, hrefuses⟩
  · refine ⟨m, ?_, hconv, hrole, hrefuses⟩
    rw [(start_of_not_rejects hr).1]
    exact (mem_ask hr hm).1
  · exact ⟨m, hm, hconv, hrole, hrefuses⟩
  · exact ⟨m, hm, hconv, hrole, hrefuses⟩
  · exact ⟨m, mem_settleRow_of_complete hm (h m hm hrole), hconv, hrole, hrefuses⟩

/-- **A turn that starts in the window** is refused. -/
theorem refuse_of_inWindow {userId messageId askedId question : String} {now : ℕ}
    (hr : ¬ w.Rejects userId c messageId askedId) (hd : Declared isWord w c)
    (hok : InWindow isWord limit w (.start userId c messageId askedId question now)) :
    (safetyCheck isWord question
      (((history (w.ask c messageId askedId question now) c limit).filter fun m =>
        m.id ≠ messageId && m.id ≠ askedId && m.content ≠ "").map ChatMessage.content)).refuse =
      true := by
  refine refuse_safetyCheck.mpr ?_
  rcases hok hr hd with hq | ⟨m, hm, hconv, hrefuses, hcount⟩
  · exact .inl hq
  · obtain ⟨hask, hne, hne'⟩ : m ∈ w.ask c messageId askedId question now ∧ m.id ≠ messageId ∧
      m.id ≠ askedId := mem_ask hr hm
    refine .inr ⟨m.content, List.mem_map.mpr ⟨m, List.mem_filter.mpr ⟨?_, ?_⟩, rfl⟩, hrefuses⟩
    · exact mem_history hask hconv hcount
    · have hcontent : m.content ≠ "" := by
        intro he
        rw [he, refuses_empty] at hrefuses
        cases hrefuses
      simp [hne, hne', hcontent]

/-- Since the world `w₁`, the turns of the conversation have been refused, and have called no
provider. -/
structure Armed (isWord : Char → Bool) (w₁ : World) (c : String) (w : World) : Prop where
  said : Said w
  declared : Declared isWord w c
  turns : ∀ t ∈ w.turns, t.conversationId = c → w₁.turns.find t.messageId = none →
    (safetyCheck isWord t.question t.history).refuse = true ∧
      t.phase ≠ .retrieving ∧ t.phase ≠ .generating
  calls : ∀ call ∈ w.calls, call.conversationId = c → (w₁.turns.find call.messageId).isSome

/-- A turn that goes on is the turn it was, or has refused, or has ended. -/
theorem Armed.advance {w₁ : World} {t : Running} {phase : Phase} (h : Armed isWord w₁ c w)
    (ht : t ∈ w.turns) (hphase : t.conversationId = c → w₁.turns.find t.messageId = none →
      phase ≠ .retrieving ∧ phase ≠ .generating) : Armed isWord w₁ c (w.advance t phase) := by
  refine ⟨h.said, h.declared, fun t' ht' hconv hnew => ?_, h.calls⟩
  rcases Table.mem_put.mp ht' with rfl | ⟨ht', -⟩
  · exact ⟨(h.turns t ht hconv hnew).1, hphase hconv hnew⟩
  · exact h.turns t' ht' hconv hnew

/-- **Step.** -/
theorem armed_step {w₁ : World} (h : Armed isWord w₁ c w) (hok : InWindow isWord limit w e)
    (hs : step isWord limit w e = some w') : Armed isWord w₁ c w' := by
  have hsaid := said_step h.said hs
  have hdeclared := declared_step h.said h.declared hs
  rcases step_cases hs with rfl |
    ⟨userId, conversationId, messageId, askedId, question, now, rfl, hr, rfl⟩ |
    ⟨t, ht, hphase, rfl⟩ | ⟨t, ht, phase, hphase, rfl⟩ | ⟨t, ht, messageId, content, failed, rfl⟩
  · exact h
  · obtain ⟨-, hcalls, hturns⟩ := @start_of_not_rejects limit w conversationId userId messageId
      askedId question now hr
    refine ⟨hsaid, hdeclared, fun t ht hconv hnew => ?_, by rw [hcalls]; exact h.calls⟩
    rw [hturns] at ht
    rcases Table.mem_put.mp ht with rfl | ⟨ht, -⟩
    · obtain rfl : conversationId = c := hconv
      exact ⟨refuse_of_inWindow hr h.declared hok, nofun, nofun⟩
    · exact h.turns t ht hconv hnew
  · -- the guard of a turn of the conversation refuses
    refine h.advance ht fun hconv hnew => ?_
    rw [if_pos (h.turns t ht hconv hnew).1]
    exact ⟨by decide, by decide⟩
  · -- and a turn that it has refused calls nobody
    have hother : ¬ (t.conversationId = c ∧ w₁.turns.find t.messageId = none) := by
      rintro ⟨hconv, hnew⟩
      obtain ⟨-, hretrieving, hgenerating⟩ := h.turns t ht hconv hnew
      exact hphase.elim hretrieving hgenerating
    have hadvance : Armed isWord w₁ c (w.advance t phase) :=
      h.advance ht fun hconv hnew => absurd ⟨hconv, hnew⟩ hother
    refine ⟨hsaid, hdeclared, hadvance.turns, fun call hcall hconv => ?_⟩
    rcases List.mem_cons.mp hcall with rfl | hcall
    · rw [Option.isSome_iff_ne_none]
      exact fun hnew => hother ⟨hconv, hnew⟩
    · exact h.calls call hcall hconv
  · have hadvance : Armed isWord w₁ c (w.advance t .ended) :=
      h.advance ht fun _ _ => ⟨by decide, by decide⟩
    exact ⟨hsaid, hdeclared, hadvance.turns, h.calls⟩

/-- Who has called a provider is a turn. -/
def Called (w : World) : Prop := ∀ call ∈ w.calls, (w.turns.find call.messageId).isSome

theorem called_step (h : Called w) (hs : step isWord limit w e = some w') : Called w' := by
  have hput : ∀ {t : Running} {k}, (w.turns.find k).isSome → ((w.turns.put t).find k).isSome := by
    intro t k hk
    rw [Table.find_put]
    split
    · rfl
    · exact hk
  rcases step_cases hs with rfl |
    ⟨userId, conversationId, messageId, askedId, question, now, -, hr, rfl⟩ |
    ⟨t, -, -, rfl⟩ | ⟨t, -, phase, -, rfl⟩ | ⟨t, -, messageId, content, failed, rfl⟩
  · exact h
  · intro call hcall
    obtain ⟨-, hcalls, hturns⟩ := @start_of_not_rejects limit w conversationId userId messageId
      askedId question now hr
    rw [hcalls] at hcall
    rw [hturns]
    exact hput (h call hcall)
  · exact fun call hcall => hput (h call hcall)
  · intro call hcall
    rcases List.mem_cons.mp hcall with rfl | hcall
    · show ((w.turns.put _).find t.messageId).isSome
      rw [Table.find_put, if_pos rfl]
      rfl
    · exact hput (h call hcall)
  · exact fun call hcall => hput (h call hcall)

/-! ### Runs -/

/-- **The guard stays armed**: when a customer has said in a conversation what is refused, then in
a run whose turns start in the window, every later turn of it is refused, and calls no provider. -/
theorem armed_of_run {is₁ is₂ : List Event} {w₁ w₂ : World}
    (h₁ : Run (step isWord limit) Always World.init is₁ w₁) (hd : Declared isWord w₁ c)
    (h₂ : Run (step isWord limit) (InWindow isWord limit) w₁ is₂ w₂) :
    (∀ t ∈ w₂.turns, t.conversationId = c → w₁.turns.find t.messageId = none →
      (safetyCheck isWord t.question t.history).refuse = true ∧
        t.phase ≠ .retrieving ∧ t.phase ≠ .generating) ∧
    ∀ call ∈ w₂.calls, call.conversationId = c → (w₁.turns.find call.messageId).isSome := by
  have hsaid : Said w₁ := h₁.invariant (fun _ hm => absurd hm Table.not_mem_empty)
    fun _ _ _ hsaid _ hs => said_step hsaid hs
  have hcalled : Called w₁ := h₁.invariant (fun _ hcall => absurd hcall List.not_mem_nil)
    fun _ _ _ hcalled _ hs => called_step hcalled hs
  have hstart : Armed isWord w₁ c w₁ := by
    refine ⟨hsaid, hd, fun t ht _ hnew => ?_, fun call hcall _ => hcalled call hcall⟩
    exact absurd rfl (Table.find_eq_none.mp hnew t ht)
  have harmed := h₂.invariant hstart fun _ _ _ h hok hs => armed_step h hok hs
  exact ⟨harmed.turns, harmed.calls⟩

/-- `\w`, among the letters that the questions below are written in. -/
def asciiWord (c : Char) : Bool :=
  let n := c.toNat
  (48 ≤ n && n ≤ 57) || (65 ≤ n && n ≤ 90) || n == 95 || (97 ≤ n && n ≤ 122)

def declaration : List Event := [.start "u1" "c1" "m1" "a1" "I'm coeliac" 0]

theorem armed_next : ∃ w₁ w₂, Run (step asciiWord 6) Always World.init declaration w₁ ∧
    Run (step asciiWord 6) (InWindow asciiWord 6) w₁
      [.start "u1" "c1" "m2" "a2" "which naan?" 10, .guard "m2"] w₂ ∧
    ∀ call ∈ w₂.calls, call.conversationId = "c1" → (w₁.turns.find call.messageId).isSome := by
  have hruns : (exec (step asciiWord 6) World.init declaration).any (fun w₁ =>
      decide (Declared asciiWord w₁ "c1") &&
        (execOk (step asciiWord 6) (InWindow asciiWord 6) w₁
          [.start "u1" "c1" "m2" "a2" "which naan?" 10, .guard "m2"]).isSome) = true := by
    decide +kernel
  obtain ⟨w₁, hrun₁, h⟩ := Option.any_eq_true _ _ |>.mp hruns
  rw [Bool.and_eq_true] at h
  obtain ⟨w₂, hrun₂⟩ := Option.isSome_iff_exists.mp h.2
  have h₁ := run_iff_exec.mpr hrun₁
  exact ⟨w₁, w₂, h₁, run_of_execOk hrun₂,
    (armed_of_run h₁ (of_decide_eq_true h.1) (run_of_execOk hrun₂)).2⟩

/-- Three questions later, with the window of six messages. -/
def smallTalk : List Event :=
  [.start "u1" "c1" "m2" "a2" "which naan?" 10, .start "u1" "c1" "m3" "a3" "and a curry?" 20,
    .start "u1" "c1" "m4" "a4" "which naan?" 30, .guard "m4", .retrieve "m4" true,
    .generate "m4"]

/-- **Disarmed**: the declaration has left the window, and a model is asked. -/
theorem disarmed : ∃ w₁ w₂, Run (step asciiWord 6) Always World.init declaration w₁ ∧
    Declared asciiWord w₁ "c1" ∧ Run (step asciiWord 6) Always w₁ smallTalk w₂ ∧
    ∃ call ∈ w₂.calls, call.conversationId = "c1" ∧ w₁.turns.find call.messageId = none := by
  have hruns : (exec (step asciiWord 6) World.init declaration).any (fun w₁ =>
      decide (Declared asciiWord w₁ "c1") &&
        (exec (step asciiWord 6) w₁ smallTalk).any fun w₂ => decide (∃ call ∈ w₂.calls,
          call.conversationId = "c1" ∧ w₁.turns.find call.messageId = none)) = true := by
    decide +kernel
  obtain ⟨w₁, hrun₁, h⟩ := Option.any_eq_true _ _ |>.mp hruns
  rw [Bool.and_eq_true] at h
  obtain ⟨w₂, hrun₂, hcall⟩ := Option.any_eq_true _ _ |>.mp h.2
  exact ⟨w₁, w₂, run_iff_exec.mpr hrun₁, of_decide_eq_true h.1, run_iff_exec.mpr hrun₂,
    of_decide_eq_true hcall⟩

end Assistant.Chat
