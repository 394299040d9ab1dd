/-
Every way to a model, and which of them pass the budget's guard.

* `prepare`, `complete`, `stream` — the diagnostic endpoints, which are admitted first;
* `turnPrompt`, `answer` — a turn of a conversation, which streams through the router;
* `Entry`, `Entry.run` — the requests, turns and jobs that may call a model;
* `Admitted`, `Guarded` — each call's prompt was admitted, within its cap and charged;
* `guarded_iff` — for which of them this holds.

The cap on concurrent generations, the cursor of retrieval and the grounding of an answer are left
out; what retrieval finds is a part of a turn, and what the orders service answers of a job.
-/
import SmartFoodOps.Assistant.Budget
import SmartFoodOps.Assistant.Content

open Interaction

namespace Assistant.Generation

open Interaction.Task

/-! ### The service -/

/-- `AssistantService`. -/
structure Service where
  router : Router
  guard : BudgetGuard
  generation : Bool

/-- An admitted call. -/
structure Turn where
  task : Task
  subject : String
  messages : List Message

def diagnosticSystem : String :=
  "You are a diagnostic echo for the SmartFoodOps assistant plane. Answer briefly and literally."

section

variable (isWord isDigit : Char → Bool)

namespace Service

variable (service : Service)

def prepare (subject prompt : String) (task : Task) : Plane Turn :=
  if service.generation then
    match service.router.specsFor task with
    | [] => raise ⟨.noProviderAvailable, "no provider registered for task " ++ task.value⟩
    | _ :: _ => do
      let fitted ← service.guard.admitPrompt (service.router.policy task) subject
        [⟨.system, diagnosticSystem⟩, ⟨.user, prompt⟩]
      pure ⟨task, subject, fitted⟩
  else raise ⟨.planeShed, "generation disarmed (ladder step 2a)"⟩

def complete (turn : Turn) : Plane Completion := do
  let completion ← service.router.complete isWord isDigit turn.task turn.messages
  service.guard.settle turn.subject completion.completionTokens
  pure completion

/-- The tokens of the last frame that ends a stream. -/
def completionTokens (chunks : List TokenChunk) : ℕ :=
  ((chunks.filter TokenChunk.done).getLast?.map TokenChunk.completionTokens).getD 0

def stream (turn : Turn) : Plane Unit := do
  let chunks ← service.router.stream isWord isDigit Plane.emit turn.task turn.messages
  service.guard.settle turn.subject (completionTokens chunks)

end Service

/-! ### A turn -/

/-- `SYSTEM`. -/
def turnSystem : String :=
  "You are a food assistant for a delivery platform.\n\nRules you must follow:\n" ++
  "- Recommend ONLY dishes from the candidate list below. Always write the\n" ++
  "  dish's NAME in your sentence, and put its exact [item:<id>] marker\n" ++
  "  immediately before that name.\n" ++
  "- The marker is REMOVED before the customer reads your answer. It is a\n" ++
  "  citation, never a substitute for the name — a sentence that leans on it\n" ++
  "  to name the dish arrives as a gap where the dish should be.\n" ++
  "- Never state a price, a delivery time, or whether something is in stock.\n" ++
  "  The app shows those next to each dish you cite.\n" ++
  "- Never make a safety, allergy, medical or nutritional claim. You may repeat\n" ++
  "  that a restaurant lists a dish as e.g. halal or vegetarian, but that is the\n" ++
  "  restaurant's own description and not a guarantee.\n" ++
  "- Answer \"what is in it\" from the dish's own description, and \"how spicy is\n" ++
  "  it\" from its DECLARED tags. If a dish does not declare something, say it\n" ++
  "  is not listed rather than inferring it from the name or the description —\n" ++
  "  a customer asking whether something is spicy is asking what the restaurant\n" ++
  "  said, not what you would guess.\n" ++
  "- Be brief. Two or three sentences unless asked for more.\n"

/-- What retrieval finds of a dish. -/
structure Passage where
  itemId : String
  text : String

/-- `render_candidates`. -/
def renderCandidates (candidates : List Passage) : String :=
  "\n".intercalate (candidates.map fun p => "[item:" ++ p.itemId ++ "] " ++ p.text)

/-- The messages of `generate`. -/
def turnPrompt (question : String) (history : List Message) (candidates : List Passage) :
    List Message :=
  let context := asData (renderCandidates candidates)
  ⟨.system, turnSystem⟩ :: history ++
    [⟨.user, context ++ "\n\nQuestion: " ++ sanitize question⟩]

/-- The nodes of the graph up to `generate`; `found` is what is retrieved. -/
def answer (router : Router) (limit : ℕ) (question : String) (history : List Message)
    (found : Except Raised (List Passage)) : Plane Unit :=
  if (safetyCheck isWord question (history.map Message.content)).refuse then pure ()
  else match found with
    | .error e => raise e
    | .ok [] => pure ()
    | .ok (p :: ps) => do
      let _ ← router.stream isWord isDigit
        (fun chunk => if chunk.text = "" then pure () else Plane.emit chunk) .generate
        (turnPrompt question history ((p :: ps).take limit))

/-! ### Entries -/

/-- What may call a model. -/
inductive Entry
  | echo (subject prompt : String) (task : Task)
  | echoStream (subject prompt : String) (task : Task)
  | chat (userId question : String) (history : List Message)
      (found : Except Raised (List Passage))
  | work (job : Job) (retries : ℕ) (draftId : String)

/-- The processes: the service, and a worker of the content studio. -/
structure Deployment where
  service : Service
  candidateLimit : ℕ
  settings : Settings
  checks : Checks

variable (d : Deployment)

/-- The routes of the process that an entry runs in. -/
def Entry.route : Entry → Route
  | .echo _ _ task | .echoStream _ _ task => d.service.router.policy task
  | .chat _ _ _ _ => d.service.router.policy .generate
  | .work job _ _ => defaultPolicy d.settings.models job.task

/-- Whose budget an entry is charged to; a job has no user. -/
def Entry.Subject (subject : String) : Entry → Prop
  | .echo s _ _ | .echoStream s _ _ | .chat s _ _ _ => subject = s
  | .work _ _ _ => True

def Entry.run : Entry → Plane Unit
  | .echo subject prompt task => do
    let turn ← d.service.prepare subject prompt task
    let _ ← d.service.complete isWord isDigit turn
    pure ()
  | .echoStream subject prompt task => do
    let turn ← d.service.prepare subject prompt task
    d.service.stream isWord isDigit turn
  | .chat _ question history found =>
    answer isWord isDigit d.service.router d.candidateLimit question history found
  | .work job retries draftId => do
    let _ ← runJob isWord isDigit d.checks d.settings retries draftId job
    pure ()

/-! ### Admission -/

/-- The counter was charged, and was within its budget then. -/
def Charged (key : String) (tokens budget : ℕ) (h : History Answer) : Prop :=
  ∃ total ≤ budget, (⟨.incrby key tokens, .ok total⟩ : Sigma Answer) ∈ h

/-- No admission of this entry was refused. -/
def Unrefused (guard : BudgetGuard) (subject : String) (h : History Answer) : Prop :=
  ∀ key tokens total, (⟨.incrby key tokens, .ok total⟩ : Sigma Answer) ∈ h →
    (key = guard.cellKey → total ≤ guard.cellBudget) ∧
      (key = BudgetGuard.userKey subject → total ≤ guard.userBudget)

/-- A prompt that the guard has admitted, and that is within the cap as it is sent. -/
structure Admitted (guard : BudgetGuard) (route : Route) (subject : String) (prompt : List Message)
    (h : History Answer) : Prop where
  fitted : ∃ messages fitted tokens, fit route messages = .ok (fitted, tokens) ∧
    prompt = scrubbed isWord isDigit fitted ∧ Charged guard.cellKey tokens guard.cellBudget h ∧
    Charged (BudgetGuard.userKey subject) tokens guard.userBudget h
  capped : cost prompt ≤ route.maxInputTokens
  unrefused : Unrefused guard subject h

/-- An operation that sends no prompt, or one that was admitted. -/
def Guards (entry : Entry) (h : History Answer) (o : Op) : Prop :=
  ∀ prompt ∈ o.prompt, ∃ subject, entry.Subject subject ∧
    Admitted isWord isDigit d.service.guard (entry.route d) subject prompt h

/-- **No call of an entry is unadmitted**, whatever is answered. -/
def Guarded (entry : Entry) (row : Option DraftRow) : Prop :=
  (entry.run isWord isDigit d).Allows (Guards isWord isDigit d entry) (fun _ _ _ => True) row []

/-- The diagnostic conversation is admitted, or no call is made. -/
def EchoSafe (prompt : String) (task : Task) : Prop :=
  d.service.generation = false ∨ d.service.router.generation = false ∨
    d.service.router.specsFor task = [] ∨
    ∀ fitted tokens, fit (d.service.router.policy task)
        [⟨.system, diagnosticSystem⟩, ⟨.user, prompt⟩] = .ok (fitted, tokens) →
      d.service.guard.store = true ∧
        cost (scrubbed isWord isDigit fitted) ≤ (d.service.router.policy task).maxInputTokens

/-- A turn that is refused, or that finds nothing, or that no model may answer. -/
def ChatSafe (question : String) (history : List Message) (found : Except Raised (List Passage)) :
    Prop :=
  (safetyCheck isWord question (history.map Message.content)).refuse = true ∨
    (∀ p ps, found ≠ .ok (p :: ps)) ∨ d.service.router.generation = false ∨
    d.service.router.specsFor .generate = []

/-- A job with nothing to do, or nothing to do it with. -/
def WorkSafe (row : Option DraftRow) (job : Job) : Prop :=
  buildRouter d.settings = none ∨ (∀ r, row = some r → r.status ≠ .queued) ∨
    ∃ feedback, job = .summariseFeedback feedback ∧
      ∀ rows, feedback = .ok rows → (said rows).length < minRows

/-- An echo whose redacted prompt is still within the cap, where there is a store; or an entry that
comes to no call. -/
def Entry.Safe (row : Option DraftRow) : Entry → Prop
  | .echo _ prompt task | .echoStream _ prompt task => EchoSafe isWord isDigit d prompt task
  | .chat _ question history found => ChatSafe isWord d question history found
  | .work job _ _ => WorkSafe d row job

variable {isWord isDigit d} {entry : Entry} {h : History Answer} {m row : Option DraftRow}
  {guard : BudgetGuard} {route : Route} {subject : String} {prompt messages : List Message}
  {task : Task} {router : Router} {S : History Answer → Op → Prop}

/-! ### Admitted calls -/

/-- Nothing was admitted at the beginning. -/
theorem not_guards_nil {o : Op} (ho : o.prompt = some prompt) :
    ¬ Guards isWord isDigit d entry [] o := by
  intro hguards
  obtain ⟨subject, -, hadmitted⟩ := hguards prompt ho
  obtain ⟨messages, fitted, tokens, -, -, ⟨total, -, hmem⟩, -⟩ := hadmitted.fitted
  exact List.not_mem_nil hmem

theorem guards_of_prompt_eq_none {o : Op} (ho : o.prompt = none) :
    Guards isWord isDigit d entry h o := by
  intro prompt hprompt
  rw [ho] at hprompt
  cases hprompt

theorem Charged.cons {key : String} {tokens budget : ℕ} (x : Sigma Answer)
    (hc : Charged key tokens budget h) : Charged key tokens budget (x :: h) := by
  obtain ⟨total, hle, hmem⟩ := hc
  exact ⟨total, hle, List.mem_cons_of_mem _ hmem⟩

/-- An admission lasts while nothing is charged. -/
theorem Admitted.cons {x : Sigma Answer} (ha : Admitted isWord isDigit guard route subject prompt h)
    (hx : ∀ key tokens, x.1 ≠ .incrby key tokens) :
    Admitted isWord isDigit guard route subject prompt (x :: h) := by
  obtain ⟨⟨messages, fitted, tokens, hfit, hprompt, hcell, huser⟩, hcap, hun⟩ := ha
  refine ⟨⟨messages, fitted, tokens, hfit, hprompt, hcell.cons x, huser.cons x⟩, hcap, ?_⟩
  intro key tokens' total hmem
  rcases List.mem_cons.mp hmem with rfl | hmem
  · exact absurd rfl (hx key tokens')
  · exact hun key tokens' total hmem

/-- The prompt of an entry has been admitted. -/
def Ready (isWord isDigit : Char → Bool) (d : Deployment) (entry : Entry) (prompt : List Message)
    (h : History Answer) : Prop :=
  ∃ subject, entry.Subject subject ∧
    Admitted isWord isDigit d.service.guard (entry.route d) subject prompt h

theorem Ready.cons {x : Sigma Answer} (hr : Ready isWord isDigit d entry prompt h)
    (hx : ∀ key tokens, x.1 ≠ .incrby key tokens) :
    Ready isWord isDigit d entry prompt (x :: h) := by
  obtain ⟨subject, hs, ha⟩ := hr
  exact ⟨subject, hs, ha.cons hx⟩

theorem Ready.guards {o : Op} (hr : Ready isWord isDigit d entry prompt h)
    (ho : o.prompt = some prompt) : Guards isWord isDigit d entry h o := by
  intro prompt' hprompt'
  rw [ho] at hprompt'
  cases hprompt'
  exact hr

theorem allows_completeFrom (specs : List ModelSpec)
    (hr : Ready isWord isDigit d entry prompt h) :
    (Router.completeFrom task prompt specs).Allows (Guards isWord isDigit d entry)
      (fun _ _ _ => True) m h := by
  induction specs generalizing h with
  | nil => trivial
  | cons spec specs ih =>
    unfold Router.completeFrom
    refine allows_tryCatch.mpr (allows_await.mpr ⟨hr.guards rfl, ?_⟩)
    rintro (e | c)
    · show Allows _ (if e.transient then _ else _) _ _ _
      split
      · exact ih (hr.cons fun _ _ h => by cases h)
      · trivial
    · trivial

theorem allows_forChunks (chunks : List TokenChunk) (hr : Ready isWord isDigit d entry prompt h) :
    (Router.forChunks Plane.emit chunks).Allows (Guards isWord isDigit d entry)
      (fun _ _ h => Ready isWord isDigit d entry prompt h) m h := by
  induction chunks generalizing h with
  | nil => exact hr
  | cons chunk chunks ih =>
    unfold Router.forChunks
    refine allows_bind.mpr (allows_await.mpr ⟨guards_of_prompt_eq_none rfl, fun r => ?_⟩)
    have hr' : Ready isWord isDigit d entry prompt (⟨.emit chunk, r⟩ :: h) :=
      hr.cons fun _ _ h => by cases h
    rcases r with e | _
    · exact hr'
    · exact ih hr'

theorem allows_streamFrom (specs : List ModelSpec) (hr : Ready isWord isDigit d entry prompt h) :
    (Router.streamFrom Plane.emit task prompt specs).Allows (Guards isWord isDigit d entry)
      (fun _ _ _ => True) m h := by
  induction specs generalizing h m with
  | nil => trivial
  | cons spec specs ih =>
    unfold Router.streamFrom
    refine allows_bind.mpr (allows_await.mpr ⟨hr.guards rfl, ?_⟩)
    rintro ⟨chunks, ending⟩
    dsimp only
    have hr' : Ready isWord isDigit d entry prompt (⟨.stream spec prompt, (chunks, ending)⟩ :: h) :=
      hr.cons fun _ _ h => by cases h
    refine Allows.bind (allows_forChunks chunks hr') (fun _ m h hr => ?_) fun _ _ _ _ => trivial
    cases ending with
    | none => trivial
    | some e =>
      dsimp only
      split
      · refine allows_bind.mpr ((ih hr).mono ?_)
        rintro (_ | _) _ _ _
        · trivial
        · trivial
      · trivial

/-! ### The entries -/

theorem router_complete_ne_nil (hgen : router.generation = true)
    (hspecs : router.specsFor task ≠ [])
    (hall : (router.complete isWord isDigit task messages).Allows S (fun _ _ _ => True) m h) :
    ∃ spec, S h (.complete spec (scrubbed isWord isDigit messages)) := by
  obtain ⟨spec, specs, hcons⟩ := List.exists_cons_of_ne_nil hspecs
  unfold Router.complete Router.shed at hall
  rw [if_pos hgen, hcons] at hall
  exact ⟨spec, (allows_await.mp (allows_tryCatch.mp hall)).1⟩

theorem router_stream_ne_nil {consume : TokenChunk → Plane Unit} (hgen : router.generation = true)
    (hspecs : router.specsFor task ≠ [])
    (hall : (router.stream isWord isDigit consume task messages).Allows S (fun _ _ _ => True) m h) :
    ∃ spec, S h (.stream spec (scrubbed isWord isDigit messages)) := by
  obtain ⟨spec, specs, hcons⟩ := List.exists_cons_of_ne_nil hspecs
  unfold Router.stream Router.shed at hall
  rw [if_pos hgen, hcons] at hall
  exact ⟨spec, (allows_await.mp (allows_bind.mp hall)).1⟩

theorem chat_guarded_iff {userId question : String} {history : List Message}
    {found : Except Raised (List Passage)} :
    Guarded isWord isDigit d (.chat userId question history found) row ↔
      ChatSafe isWord d question history found := by
  show Allows _ (answer isWord isDigit d.service.router d.candidateLimit question history found)
    _ _ _ ↔ _
  unfold answer ChatSafe
  by_cases hrefuse : (safetyCheck isWord question (history.map Message.content)).refuse = true
  · rw [if_pos hrefuse]
    exact ⟨fun _ => .inl hrefuse, fun _ => trivial⟩
  · rw [if_neg hrefuse, or_iff_right hrefuse]
    rcases found with e | _ | ⟨p, ps⟩
    · exact ⟨fun _ => .inl nofun, fun _ => trivial⟩
    · exact ⟨fun _ => .inl nofun, fun _ => trivial⟩
    · rw [or_iff_right fun h => h p ps rfl]
      constructor
      · intro hallows
        by_contra hno
        rw [not_or, Bool.not_eq_false] at hno
        obtain ⟨spec, hguards⟩ := router_stream_ne_nil hno.1 hno.2 hallows.of_bind
        exact not_guards_nil rfl hguards
      · rintro (hgen | hspecs)
        · dsimp only
          unfold Router.stream Router.shed
          rw [hgen]
          trivial
        · dsimp only
          unfold Router.stream Router.shed
          split
          · rw [hspecs]
            trivial
          · trivial

/-- A worker that has a router has its provider. -/
theorem specsFor_ne_nil {settings : Settings} (h : buildRouter settings = some router) :
    settings.generation = true ∧ router.generation = true ∧ router.specsFor task ≠ [] := by
  unfold buildRouter at h
  split at h
  · cases h
  · next hkey =>
    rw [Bool.or_eq_true, not_or] at hkey
    have hgen : settings.generation = true := by
      by_contra hoff
      refine hkey.1 ?_
      unfold shedReason
      rw [if_neg hoff]
      rfl
    cases h
    refine ⟨hgen, hgen, ?_⟩
    cases task <;> simp [Router.specsFor, defaultPolicy]

/-- A row is settled without a call. -/
theorem allows_park {error : String} :
    (do park error; pure "parked" : Plane String).Allows S (fun _ _ _ => True) m h := by
  unfold park move
  refine allows_bind.mpr (allows_bind.mpr (allows_bind.mpr (allows_get.mpr ?_)))
  rcases m with _ | row
  · trivial
  · dsimp only
    split
    · trivial
    · trivial

theorem allows_onFailure {retries : ℕ} {e : Raised} :
    (onFailure retries e).Allows S (fun _ _ _ => True) m h := by
  unfold onFailure
  split
  · exact allows_park
  · split
    · split
      · exact allows_park
      · trivial
    · exact allows_park

theorem allows_runJob {retries : ℕ} {draftId : String} {job : Job}
    (hbody : (job.body isWord isDigit d.checks d.settings draftId).Allows S (fun _ _ _ => True) m
      h) :
    (runJob isWord isDigit d.checks d.settings retries draftId job).Allows S (fun _ _ _ => True) m
      h := by
  unfold runJob
  split
  · exact allows_park
  · refine allows_tryCatch.mpr (hbody.mono ?_)
    rintro (e | _) m h -
    · exact allows_onFailure
    · trivial

/-- A job that has all that it needs calls its model. -/
theorem call_of_job {settings : Settings} {checks : Checks} {retries : ℕ} {draftId : String}
    {job : Job} {r : DraftRow} (hrouter : buildRouter settings = some router)
    (hqueued : r.status = .queued)
    (hfeedback : ∀ feedback, job = .summariseFeedback feedback →
      ∃ rows, feedback = .ok rows ∧ minRows ≤ (said rows).length)
    (hall : (runJob isWord isDigit checks settings retries draftId job).Allows S
      (fun _ _ _ => True) (some r) h) : ∃ spec messages, S h (.complete spec messages) := by
  obtain ⟨hon, hgen, hspecs⟩ : settings.generation = true ∧ router.generation = true ∧
    router.specsFor job.task ≠ [] := specsFor_ne_nil hrouter
  unfold runJob at hall
  unfold shedReason at hall
  rw [if_pos hon] at hall
  have hbody := hall.of_tryCatch
  cases job with
  | draftContent =>
    unfold Job.body runDraft withQueued at hbody
    rw [hrouter] at hbody
    have hdraft := allows_get.mp (allows_bind.mp hbody)
    dsimp only at hdraft
    rw [if_pos hqueued] at hdraft
    have hcomplete := hdraft.of_bind.of_bind.of_tryCatch.of_bind
    obtain ⟨spec, hcall⟩ := router_complete_ne_nil hgen hspecs hcomplete
    exact ⟨spec, _, hcall⟩
  | summariseFeedback feedback =>
    obtain ⟨rows, rfl, hlen⟩ := hfeedback feedback rfl
    unfold Job.body runSummary withQueued at hbody
    rw [hrouter] at hbody
    have hsummary := allows_get.mp (allows_bind.mp hbody)
    dsimp only at hsummary
    rw [if_pos hqueued, if_neg (Nat.not_lt.mpr hlen)] at hsummary
    obtain ⟨spec, hcall⟩ := router_complete_ne_nil hgen hspecs hsummary.of_bind.of_bind
    exact ⟨spec, _, hcall⟩

theorem work_guarded_iff {job : Job} {retries : ℕ} {draftId : String} :
    Guarded isWord isDigit d (.work job retries draftId) row ↔ WorkSafe d row job := by
  have hrun : Guarded isWord isDigit d (.work job retries draftId) row ↔
      (runJob isWord isDigit d.checks d.settings retries draftId job).Allows
        (Guards isWord isDigit d (.work job retries draftId)) (fun _ _ _ => True) row [] := by
    refine allows_bind.trans ⟨fun h => h.mono fun _ _ _ _ => trivial, fun h => h.mono ?_⟩
    rintro (_ | _) _ _ _
    · trivial
    · trivial
  rw [hrun]
  constructor
  · intro hall
    by_contra hno
    unfold WorkSafe at hno
    push Not at hno
    obtain ⟨hrouter, ⟨r, rfl, hqueued⟩, hfeedback⟩ := hno
    obtain ⟨router, hrouter⟩ := Option.ne_none_iff_exists'.mp hrouter
    obtain ⟨spec, messages, hguards⟩ := call_of_job hrouter hqueued hfeedback hall
    exact not_guards_nil rfl hguards
  · intro hsafe
    refine allows_runJob ?_
    have hbody : ∀ (f : DraftRow → Plane String), (∀ r, row = some r → r.status = .queued →
          (f r).Allows (Guards isWord isDigit d (.work job retries draftId)) (fun _ _ _ => True)
            row []) →
        (withQueued draftId f).Allows (Guards isWord isDigit d (.work job retries draftId))
          (fun _ _ _ => True) row [] := by
      intro f hf
      unfold withQueued
      refine allows_bind.mpr (allows_get.mpr ?_)
      rcases row with _ | r
      · trivial
      · dsimp only
        split
        · next hqueued => exact hf r rfl hqueued
        · trivial
    rcases hsafe with hnone | hrow | ⟨feedback, rfl, hfew⟩
    · cases job with
      | draftContent =>
        unfold Job.body runDraft
        rw [hnone]
        exact hbody _ fun _ _ _ => trivial
      | summariseFeedback feedback =>
        unfold Job.body runSummary
        rw [hnone]
        exact hbody _ fun _ _ _ => trivial
    · cases job with
      | draftContent => exact hbody _ fun r hr hqueued => absurd hqueued (hrow r hr)
      | summariseFeedback feedback =>
        exact hbody _ fun r hr hqueued => absurd hqueued (hrow r hr)
    · refine hbody _ fun r hr hqueued => ?_
      rcases buildRouter d.settings with _ | router
      · trivial
      · rcases feedback with text | rows
        · trivial
        · dsimp only
          rw [if_pos (hfew rows rfl)]
          trivial

/-! ### The endpoints -/

theorem cellKey_ne_userKey : guard.cellKey ≠ BudgetGuard.userKey subject := by
  intro h
  have hlist := congrArg (fun s : String => s.toList.take 11) h
  unfold BudgetGuard.cellKey BudgetGuard.userKey at hlist
  rw [String.toList_append, String.toList_append, String.toList_ofList, String.toList_ofList] at hlist
  -- the eleventh character tells the keys apart
  cases hlist

theorem allows_consume {key : String} {tokens budget windowS : ℕ} :
    (consume key tokens budget windowS).Allows (Guards isWord isDigit d entry)
      (fun r _ h' => ∀ within, r = .ok within → ∃ total x, x.1 = .expire key windowS ∧
        h' = x :: ⟨.incrby key tokens, .ok total⟩ :: h ∧ within = decide (total ≤ budget)) m h := by
  unfold consume
  refine allows_bind.mpr (allows_await.mpr ⟨guards_of_prompt_eq_none rfl, ?_⟩)
  rintro (e | total)
  · exact nofun
  · refine allows_bind.mpr (allows_await.mpr ⟨guards_of_prompt_eq_none rfl, ?_⟩)
    rintro (e | _)
    · exact nofun
    · rintro _ ⟨rfl⟩
      exact ⟨total, _, rfl, rfl, rfl⟩

/-- What an admission has charged. -/
def Paid (guard : BudgetGuard) (subject : String) (tokens : ℕ) (h : History Answer) : Prop :=
  Charged guard.cellKey tokens guard.cellBudget h ∧
    Charged (BudgetGuard.userKey subject) tokens guard.userBudget h ∧ Unrefused guard subject h

/-- **An admission** that does not refuse has fitted the prompt and, where there is a store, has
charged for it. -/
theorem allows_admitPrompt :
    (guard.admitPrompt route subject messages).Allows (Guards isWord isDigit d entry)
      (fun r _ h' => ∀ fitted, r = .ok fitted →
        ∃ tokens, fit route messages = .ok (fitted, tokens) ∧
          (guard.store = true → Paid guard subject tokens h')) m [] := by
  unfold BudgetGuard.admitPrompt
  rcases hfit : fit route messages with e | ⟨fitted, tokens⟩
  · exact nofun
  dsimp only
  by_cases hstore : guard.store = true
  · rw [if_pos hstore]
    refine Allows.bind allows_consume (fun within m h hwithin => ?_) fun _ _ _ _ => nofun
    obtain ⟨total, x, hx, rfl, rfl⟩ := hwithin within rfl
    split
    · next hcell =>
      refine Allows.bind allows_consume (fun within m h hwithin => ?_) fun _ _ _ _ => nofun
      obtain ⟨total', x', hx', rfl, rfl⟩ := hwithin within rfl
      split
      · next huser =>
        rintro _ ⟨rfl⟩
        refine ⟨tokens, rfl, fun _ => ⟨⟨total, of_decide_eq_true hcell, ?_⟩,
          ⟨total', of_decide_eq_true huser, ?_⟩, ?_⟩⟩
        · simp
        · simp
        · intro key tokens' total'' hmem
          simp only [List.mem_cons, List.not_mem_nil, or_false] at hmem
          rcases hmem with rfl | heq | rfl | heq
          · cases hx'
          · cases heq
            exact ⟨fun h => absurd h.symm cellKey_ne_userKey, fun _ => of_decide_eq_true huser⟩
          · cases hx
          · cases heq
            exact ⟨fun _ => of_decide_eq_true hcell, fun h => absurd h cellKey_ne_userKey⟩
      · exact nofun
    · exact nofun
  · rw [if_neg hstore]
    rintro _ ⟨rfl⟩
    exact ⟨tokens, rfl, fun h => absurd h hstore⟩

/-- A counter may answer that nothing was spent before. -/
theorem exists_of_consume {key : String} {tokens budget windowS : ℕ}
    {Q : Except Raised Bool → Option DraftRow → History Answer → Prop}
    (hall : (consume key tokens budget windowS).Allows S Q m h) : ∃ h', Q (.ok true) m h' := by
  unfold consume at hall
  have hincrby := (allows_await.mp (allows_bind.mp hall)).2 (.ok 0)
  have hexpire := allows_await.mp (allows_bind.mp hincrby)
  have hlast : Q (.ok (decide (0 ≤ budget))) m
      (⟨.expire key windowS, .ok ()⟩ :: ⟨.incrby key tokens, .ok 0⟩ :: h) := hexpire.2 (.ok ())
  rw [decide_eq_true (Nat.zero_le budget)] at hlast
  exact ⟨_, hlast⟩

/-- What is said to the model at an endpoint. -/
abbrev echoMessages (prompt : String) : List Message :=
  [⟨.system, diagnosticSystem⟩, ⟨.user, prompt⟩]

/-- The endpoint goes on with what was admitted. -/
theorem allows_prepare {k : Turn → Plane Unit} {prompt : String}
    (hk : ∀ fitted tokens m h, fit (d.service.router.policy task) (echoMessages prompt) =
        .ok (fitted, tokens) → d.service.generation = true →
        (d.service.guard.store = true → Paid d.service.guard subject tokens h) →
      (k ⟨task, subject, fitted⟩).Allows (Guards isWord isDigit d entry) (fun _ _ _ => True) m h) :
    (d.service.prepare subject prompt task >>= k).Allows (Guards isWord isDigit d entry)
      (fun _ _ _ => True) m [] := by
  unfold Service.prepare
  split
  · next hgen =>
    split
    · trivial
    · refine allows_bind.mpr (Allows.bind allows_admitPrompt (fun fitted m h hfitted => ?_)
        fun _ _ _ _ => trivial)
      obtain ⟨tokens, hfit, hpaid⟩ := hfitted fitted rfl
      exact hk fitted tokens m h hfit hgen hpaid
  · trivial

/-- Whatever the endpoint does with what was admitted, it may come to it. -/
theorem allows_of_prepare {k : Turn → Plane Unit} {prompt : String} {fitted : List Message}
    {tokens : ℕ} (hgen : d.service.generation = true)
    (hspecs : d.service.router.specsFor task ≠ [])
    (hfit : fit (d.service.router.policy task) (echoMessages prompt) = .ok (fitted, tokens))
    (hall : (d.service.prepare subject prompt task >>= k).Allows S (fun _ _ _ => True) m []) :
    ∃ h, (k ⟨task, subject, fitted⟩).Allows S (fun _ _ _ => True) m h ∧
      (d.service.guard.store = false → h = []) := by
  obtain ⟨spec, specs, hcons⟩ := List.exists_cons_of_ne_nil hspecs
  unfold Service.prepare at hall
  rw [if_pos hgen, hcons] at hall
  have hadmit := allows_bind.mp (allows_bind.mp hall)
  unfold BudgetGuard.admitPrompt at hadmit
  rw [hfit] at hadmit
  dsimp only at hadmit
  by_cases hstore : d.service.guard.store = true
  · rw [if_pos hstore] at hadmit
    obtain ⟨h, hcell⟩ := exists_of_consume (allows_bind.mp hadmit)
    dsimp only at hcell
    rw [if_pos rfl] at hcell
    obtain ⟨h', huser⟩ := exists_of_consume (allows_bind.mp hcell)
    dsimp only at huser
    rw [if_pos rfl] at huser
    exact ⟨h', huser, fun hno => absurd hstore (by rw [hno]; exact Bool.false_ne_true)⟩
  · rw [if_neg hstore] at hadmit
    exact ⟨[], hadmit, fun _ => rfl⟩

theorem allows_settle {tokens : ℕ} :
    (guard.settle subject tokens).Allows (Guards isWord isDigit d entry) (fun _ _ _ => True) m
      h := by
  unfold BudgetGuard.settle
  split
  · refine Allows.bind allows_consume (fun _ m h _ => ?_) fun _ _ _ _ => trivial
    exact Allows.bind allows_consume (fun _ _ _ _ => trivial) fun _ _ _ _ => trivial
  · trivial

/-- What was paid for is ready, if it is within the cap when it is redacted. -/
theorem ready_of_paid {prompt : String} {fitted : List Message} {tokens : ℕ}
    (hsubject : entry.Subject subject) (hroute : entry.route d = d.service.router.policy task)
    (hfit : fit (d.service.router.policy task) (echoMessages prompt) = .ok (fitted, tokens))
    (hpaid : Paid d.service.guard subject tokens h)
    (hcap : cost (scrubbed isWord isDigit fitted) ≤ (d.service.router.policy task).maxInputTokens) :
    Ready isWord isDigit d entry (scrubbed isWord isDigit fitted) h := by
  refine ⟨subject, hsubject,
    ⟨⟨echoMessages prompt, fitted, tokens, ?_, rfl, hpaid.1, hpaid.2.1⟩, ?_, hpaid.2.2⟩⟩
  · rw [hroute]
    exact hfit
  · rw [hroute]
    exact hcap

/-- **An endpoint** makes admitted calls only, whatever it does with the answers. -/
theorem prepare_guarded_iff {k : Turn → Plane Unit} {prompt : String}
    (hsubject : entry.Subject subject) (hroute : entry.route d = d.service.router.policy task)
    (hoff : d.service.router.generation = false ∨ d.service.router.specsFor task = [] →
      ∀ fitted m h, (k ⟨task, subject, fitted⟩).Allows (Guards isWord isDigit d entry)
        (fun _ _ _ => True) m h)
    (hready : ∀ fitted m h, Ready isWord isDigit d entry (scrubbed isWord isDigit fitted) h →
      (k ⟨task, subject, fitted⟩).Allows (Guards isWord isDigit d entry) (fun _ _ _ => True) m h)
    (hcall : d.service.router.generation = true → d.service.router.specsFor task ≠ [] →
      ∀ fitted m h, (k ⟨task, subject, fitted⟩).Allows (Guards isWord isDigit d entry)
        (fun _ _ _ => True) m h →
      ∃ o, o.prompt = some (scrubbed isWord isDigit fitted) ∧ Guards isWord isDigit d entry h o) :
    (d.service.prepare subject prompt task >>= k).Allows (Guards isWord isDigit d entry)
      (fun _ _ _ => True) row [] ↔ EchoSafe isWord isDigit d prompt task := by
  constructor
  · intro hall
    by_contra hno
    unfold EchoSafe at hno
    push Not at hno
    rw [Bool.ne_false_iff, Bool.ne_false_iff] at hno
    obtain ⟨hgen, hrouter, hspecs, fitted, tokens, hfit, hbad⟩ := hno
    obtain ⟨h, hk, hnil⟩ := allows_of_prepare hgen hspecs hfit hall
    obtain ⟨o, ho, hguards⟩ := hcall hrouter hspecs fitted _ h hk
    by_cases hstore : d.service.guard.store = true
    · obtain ⟨s, -, hadmitted⟩ := hguards _ ho
      have hcap := hadmitted.capped
      rw [hroute] at hcap
      exact absurd (hbad hstore) (Nat.not_lt.mpr hcap)
    · rw [hnil (Bool.eq_false_iff.mpr hstore)] at hguards
      exact not_guards_nil ho hguards
  · intro hsafe
    refine allows_prepare fun fitted tokens m h hfit hgen hpaid => ?_
    rcases hsafe with hoff' | hrouter | hspecs | hfits
    · rw [hgen] at hoff'
      cases hoff'
    · exact hoff (.inl hrouter) fitted m h
    · exact hoff (.inr hspecs) fitted m h
    · obtain ⟨hstore, hcap⟩ := hfits fitted tokens hfit
      exact hready fitted m h (ready_of_paid hsubject hroute hfit (hpaid hstore) hcap)

/-- A router that is off, or has no provider, makes no call. -/
theorem allows_complete_of_off
    (hoff : router.generation = false ∨ router.specsFor task = []) :
    (router.complete isWord isDigit task messages).Allows S (fun _ _ _ => True) m h := by
  unfold Router.complete Router.shed
  rcases hoff with hgen | hspecs
  · rw [hgen]
    trivial
  · rw [hspecs]
    split
    · trivial
    · trivial

theorem allows_stream_of_off {consume : TokenChunk → Plane Unit}
    (hoff : router.generation = false ∨ router.specsFor task = []) :
    (router.stream isWord isDigit consume task messages).Allows S (fun _ _ _ => True) m h := by
  unfold Router.stream Router.shed
  rcases hoff with hgen | hspecs
  · rw [hgen]
    trivial
  · rw [hspecs]
    split
    · trivial
    · trivial

theorem allows_complete_of_ready
    (hr : Ready isWord isDigit d entry (scrubbed isWord isDigit messages) h) :
    (router.complete isWord isDigit task messages).Allows (Guards isWord isDigit d entry)
      (fun _ _ _ => True) m h := by
  unfold Router.complete Router.shed
  split
  · show Allows _ (match router.specsFor task with | [] => _ | spec :: specs => _) _ _ _
    split
    · trivial
    · exact allows_completeFrom _ hr
  · trivial

theorem allows_stream_of_ready
    (hr : Ready isWord isDigit d entry (scrubbed isWord isDigit messages) h) :
    (router.stream isWord isDigit Plane.emit task messages).Allows (Guards isWord isDigit d entry)
      (fun _ _ _ => True) m h := by
  unfold Router.stream Router.shed
  split
  · show Allows _ (match router.specsFor task with | [] => _ | spec :: specs => _) _ _ _
    split
    · trivial
    · exact allows_streamFrom _ hr
  · trivial

theorem echo_guarded_iff {prompt : String} :
    Guarded isWord isDigit d (.echo subject prompt task) row ↔
      EchoSafe isWord isDigit d prompt task := by
  refine prepare_guarded_iff rfl rfl ?_ ?_ ?_
  · intro hoff fitted m h
    refine Allows.seq ?_ fun _ _ _ => trivial
    refine Allows.seq (allows_complete_of_off hoff) fun _ _ _ => ?_
    exact Allows.seq allows_settle fun _ _ _ => trivial
  · intro fitted m h hr
    refine Allows.seq ?_ fun _ _ _ => trivial
    refine Allows.seq (allows_complete_of_ready hr) fun _ _ _ => ?_
    exact Allows.seq allows_settle fun _ _ _ => trivial
  · intro hgen hspecs fitted m h hall
    obtain ⟨spec, hguards⟩ := router_complete_ne_nil hgen hspecs hall.of_bind.of_bind
    exact ⟨_, rfl, hguards⟩

theorem echoStream_guarded_iff {prompt : String} :
    Guarded isWord isDigit d (.echoStream subject prompt task) row ↔
      EchoSafe isWord isDigit d prompt task := by
  refine prepare_guarded_iff rfl rfl ?_ ?_ ?_
  · exact fun hoff fitted m h => (allows_stream_of_off hoff).seq fun _ _ _ => allows_settle
  · exact fun fitted m h hr => (allows_stream_of_ready hr).seq fun _ _ _ => allows_settle
  · intro hgen hspecs fitted m h hall
    obtain ⟨spec, hguards⟩ := router_stream_ne_nil hgen hspecs hall.of_bind
    exact ⟨_, rfl, hguards⟩

/-- **Which entries are guarded**: no turn and no job that comes to a call is, and an endpoint is,
if its redacted prompt is within the cap. -/
theorem guarded_iff (isWord isDigit : Char → Bool) (d : Deployment) (entry : Entry)
    (row : Option DraftRow) :
    Guarded isWord isDigit d entry row ↔ entry.Safe isWord isDigit d row := by
  cases entry with
  | echo subject prompt task => exact echo_guarded_iff
  | echoStream subject prompt task => exact echoStream_guarded_iff
  | chat userId question history found => exact chat_guarded_iff
  | work job retries draftId => exact work_guarded_iff

/-- **A turn that nobody admitted**: a question about soup, whose prompt is streamed from a provider
though no counter was asked, and both budgets are zero. -/
theorem unadmitted_turn :
    let models : Models := ⟨"large", "small", "large", "small", 30⟩
    let d : Deployment :=
      ⟨⟨⟨["anthropic"], defaultPolicy models, true⟩, ⟨"cell", 0, 3600, 0, 60, true⟩, true⟩, 8,
        ⟨models, true, ""⟩, ⟨fun _ => none, fun _ => none, fun s _ => .ok s, fun _ => ""⟩⟩
    ¬ Guarded (fun _ => false) (fun _ => false) d
      (.chat "u1" "hot soup" [] (.ok [⟨"i1", "Tom yum"⟩])) none := by
  intro models d hguarded
  have hrefuse : (safetyCheck (fun _ => false) "hot soup" []).refuse = false := by decide +kernel
  rcases chat_guarded_iff.mp hguarded with h | h | h | h
  · exact absurd h (by rw [List.map_nil, hrefuse]; exact Bool.false_ne_true)
  · exact h _ _ rfl
  · cases h
  · exact absurd h (by decide)

end

end Assistant.Generation
