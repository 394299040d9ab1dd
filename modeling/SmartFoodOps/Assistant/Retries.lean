/-
Which failures of a content job are retried.

* `FullOutage` — every provider of the job's task failed in a way that passes;
* `Classified` — what is promised of an execution: a full outage leaves the draft queued and is
  retried until the retries are used up, anything else that fails parks it at once, and a draft
  that nobody will come back to is not queued;
* `classified_iff` — executions for which the promise is kept: all but full outages.

The router turns the failure of all its providers into `NoProviderAvailable`, which none of the
layers above it counts among the failures that pass; so the schedule of retries is never used.
-/
import SmartFoodOps.Assistant.Content

open Interaction

namespace Assistant.Generation

open Interaction.Task

/-! ### Executions -/

/-- The schedule of a task: what raises a failure that passes is run again. -/
def Retried (retries : ℕ) (result : Except Raised String) : Prop :=
  ∃ e, result = .error e ∧ e.transient = true ∧ retries < maxRetries

/-- Every provider that is registered for the task was called, and failed in a way that passes. -/
def FullOutage (specs : List ModelSpec) (h : History Answer) : Prop :=
  specs ≠ [] ∧ (∀ spec ∈ specs, ∃ messages r, (⟨.complete spec messages, r⟩ : Sigma Answer) ∈ h) ∧
    ∀ spec messages r, (⟨.complete spec messages, r⟩ : Sigma Answer) ∈ h →
      ∃ e : Raised, r = .error e ∧ e.transient = true

/-- How an execution ended: its history, its result, and the row. -/
structure Execution where
  retries : ℕ
  history : History Answer
  result : Except Raised String
  row : DraftRow

/-- What is promised of an execution. -/
structure Classified (specs : List ModelSpec) (x : Execution) : Prop where
  outage : FullOutage specs x.history → if x.retries < maxRetries then
    x.row.status = .queued ∧ Retried x.retries x.result
    else x.row.status = .parked ∧ ¬ Retried x.retries x.result
  failure : ¬ FullOutage specs x.history → ¬ Retried x.retries x.result ∧
    (x.result = .ok "drafted" ∧ x.row.status = .drafted ∨ x.row.status = .parked)
  settled : ¬ Retried x.retries x.result → x.row.status ≠ .queued

section

variable (isWord isDigit : Char → Bool) (checks : Checks) (settings : Settings) (draftId : String)

/-- The providers of a job. -/
def Job.specs (job : Job) : List ModelSpec :=
  ((buildRouter settings).map fun router => router.specsFor job.task).getD []

/-- The executions of a job, from a row on: another one as long as it is retried. -/
inductive Executions (job : ℕ → Job) : ℕ → DraftRow → List Execution → Prop
  | last {retries : ℕ} {row row' : DraftRow} {h : History Answer} {result : Except Raised String}
      (hends : Ends (runJob isWord isDigit checks settings retries draftId (job retries) (some row))
        [] (result, some row') h)
      (hr : ¬ Retried retries result) :
      Executions job retries row [⟨retries, h, result, row'⟩]
  | more {retries : ℕ} {row row' : DraftRow} {h : History Answer} {result : Except Raised String}
      {rest : List Execution}
      (hends : Ends (runJob isWord isDigit checks settings retries draftId (job retries) (some row))
        [] (result, some row') h)
      (hr : Retried retries result) (hrest : Executions job (retries + 1) row' rest) :
      Executions job retries row (⟨retries, h, result, row'⟩ :: rest)

/-! ### What an execution does -/

/-- Some provider answered. -/
def Answered (h : History Answer) : Prop :=
  ∃ spec messages c, (⟨.complete spec messages, .ok c⟩ : Sigma Answer) ∈ h

/-- The row is left alone; a result comes from an answer, and no failure that passes comes out. -/
def Calm {α : Type} (m : Option DraftRow) (r : Except Raised α) (m' : Option DraftRow)
    (h : History Answer) : Prop :=
  m' = m ∧ match r with
    | .ok _ => Answered h
    | .error e => e.transient = false

variable {isWord isDigit checks settings draftId} {h : History Answer} {m : Option DraftRow}
  {row : DraftRow} {router : Router} {task : Task} {messages : List Message}

theorem transient_permanent (text : String) : (permanent text).transient = false := rfl

theorem not_fullOutage_of_answered {specs : List ModelSpec} (ha : Answered h) :
    ¬ FullOutage specs h := by
  rintro ⟨-, -, hfail⟩
  obtain ⟨spec, messages, c, hmem⟩ := ha
  obtain ⟨e, he, -⟩ := hfail spec messages (.ok c) hmem
  cases he

/-- **The router** lets no failure through that passes. -/
theorem wp_completeFrom (specs : List ModelSpec) :
    (Router.completeFrom task messages specs).Wp (Calm m) m h := by
  induction specs generalizing h with
  | nil => exact wp_raise.mpr ⟨rfl, rfl⟩
  | cons spec specs ih =>
    unfold Router.completeFrom
    refine wp_tryCatch.mpr (wp_await.mpr ?_)
    rintro (e | c)
    · show Wp (if e.transient then _ else _) _ _ _
      split
      · exact ih
      · next he => exact wp_raise.mpr ⟨rfl, by simpa using he⟩
    · exact ⟨rfl, spec, messages, c, List.mem_cons_self⟩

theorem wp_complete : (router.complete isWord isDigit task messages).Wp (Calm m) m h := by
  unfold Router.complete
  refine wp_bind.mpr ?_
  unfold Router.shed
  split
  · refine wp_pure.mpr ?_
    dsimp only
    split
    · exact wp_raise.mpr ⟨rfl, rfl⟩
    · exact wp_completeFrom _
  · exact wp_raise.mpr ⟨rfl, rfl⟩

/-- What comes after an answer keeps it. -/
theorem Calm.bind {α β : Type} {x : Plane α} {f : α → Plane β} (hx : x.Wp (Calm m) m h)
    (hf : ∀ a h', Answered h' → (f a).Wp (Calm m) m h') : (x >>= f).Wp (Calm m) m h := by
  refine Wp.bind hx ?_ ?_
  · rintro a m' h' ⟨rfl, ha⟩
    exact hf a h' ha
  · rintro e m' h' ⟨rfl, he⟩
    exact ⟨rfl, he⟩

theorem wp_draft {kind subject : String} {request : Option String}
    {facts : List (String × FactValue)} :
    (draft isWord isDigit router kind subject request facts).Wp (Calm m) m h := by
  unfold draft
  refine Calm.bind wp_complete fun c h' ha => ?_
  dsimp only
  split
  · exact wp_pure.mpr ⟨rfl, ha⟩
  · exact wp_raise.mpr ⟨rfl, transient_permanent _⟩
  · by_cases hempty : strip c.text = ""
    · rw [if_pos hempty]
      exact wp_pure.mpr ⟨rfl, ha⟩
    · rw [if_neg hempty]
      generalize (strip c.text).length = n
      by_cases hlong : 400 < n
      · rw [if_pos hlong]
        exact wp_raise.mpr ⟨rfl, transient_permanent _⟩
      · rw [if_neg hlong]
        exact wp_pure.mpr ⟨rfl, ha⟩

theorem wp_generate {kind subject : String} {request : Option String}
    {facts : List (String × FactValue)} :
    (generate isWord isDigit checks router kind subject request facts).Wp (Calm m) m h := by
  unfold generate
  refine Calm.bind (wp_tryCatch.mpr (Wp.mono wp_draft ?_)) fun drafted h' ha => ?_
  · rintro (e | drafted) m' h' ⟨rfl, hr⟩
    · dsimp only
      split
      · exact wp_raise.mpr ⟨rfl, hr⟩
      · exact wp_raise.mpr ⟨rfl, rfl⟩
    · exact ⟨rfl, hr⟩
  · cases drafted with
    | none => exact wp_raise.mpr ⟨rfl, rfl⟩
    | some drafted =>
      dsimp only
      split
      · exact wp_raise.mpr ⟨rfl, rfl⟩
      · exact wp_pure.mpr ⟨rfl, ha⟩

theorem wp_summarise {comments : List String} :
    (summarise isWord isDigit checks router comments).Wp (Calm m) m h := by
  unfold summarise
  refine Calm.bind wp_complete fun c h' ha => ?_
  split
  · exact wp_pure.mpr ⟨rfl, ha⟩
  · exact wp_pure.mpr ⟨rfl, ha⟩

/-- A body's end: its answer is in the row, or the row is as it was. -/
def Delivered (row : DraftRow) (r : Except Raised String) (m' : Option DraftRow)
    (h : History Answer) : Prop :=
  match r with
  | .ok s => s = "drafted" ∧ Answered h ∧ ∃ row', m' = some row' ∧ row'.status = .drafted
  | .error e => e.transient = false ∧ m' = some row

theorem wp_keepAnswer {content model : String} (hrow : row.status = .queued) (ha : Answered h) :
    (keepAnswer content model).Wp (Delivered row) (some row) h := by
  unfold keepAnswer completeDraft move
  refine wp_bind.mpr (wp_bind.mpr (wp_get.mpr ?_))
  dsimp only
  rw [if_pos hrow]
  exact wp_bind.mpr (wp_modify.mpr (wp_pure.mpr ⟨rfl, ha, _, rfl, rfl⟩))

theorem Delivered.bind {α : Type} {x : Plane α} {f : α → Plane String}
    (hx : x.Wp (Calm (some row)) (some row) h)
    (hf : ∀ a h', Answered h' → (f a).Wp (Delivered row) (some row) h') :
    (x >>= f).Wp (Delivered row) (some row) h := by
  refine Wp.bind hx ?_ ?_
  · rintro a m' h' ⟨rfl, ha⟩
    exact hf a h' ha
  · rintro e m' h' ⟨rfl, he⟩
    exact ⟨he, rfl⟩

theorem wp_body (job : Job) (hrow : row.status = .queued) :
    (job.body isWord isDigit checks settings draftId).Wp (Delivered row) (some row) h := by
  cases job with
  | draftContent =>
    unfold Job.body runDraft withQueued
    refine wp_bind.mpr (wp_get.mpr ?_)
    dsimp only
    rw [if_pos hrow]
    split
    · exact wp_raise.mpr ⟨rfl, rfl⟩
    · exact Delivered.bind wp_generate fun drafted h' ha => wp_keepAnswer hrow ha
  | summariseFeedback feedback =>
    unfold Job.body runSummary withQueued
    refine wp_bind.mpr (wp_get.mpr ?_)
    dsimp only
    rw [if_pos hrow]
    split
    · exact wp_raise.mpr ⟨rfl, rfl⟩
    · split
      · exact wp_raise.mpr ⟨rfl, rfl⟩
      · split
        · exact wp_raise.mpr ⟨rfl, rfl⟩
        · refine Delivered.bind wp_summarise fun raw h' ha => ?_
          cases raw with
          | none => exact wp_raise.mpr ⟨rfl, rfl⟩
          | some raw =>
            dsimp only
            split
            · exact wp_raise.mpr ⟨rfl, rfl⟩
            · exact wp_keepAnswer hrow ha

/-- An execution's end: the row is drafted by an answer, or parked. -/
def Settles (r : Except Raised String) (m' : Option DraftRow) (h : History Answer) : Prop :=
  ∃ s row', r = .ok s ∧ m' = some row' ∧
    (s = "drafted" ∧ row'.status = .drafted ∧ Answered h ∨ row'.status = .parked)

theorem wp_park {error : String} (hrow : row.status = .queued) :
    (do park error; pure "parked" : Plane String).Wp Settles (some row) h := by
  unfold park move
  refine wp_bind.mpr (wp_bind.mpr (wp_bind.mpr (wp_get.mpr ?_)))
  dsimp only
  rw [if_pos hrow]
  exact wp_bind.mpr (wp_modify.mpr (wp_pure.mpr (wp_pure.mpr (wp_pure.mpr
    ⟨_, _, rfl, rfl, .inr rfl⟩))))

/-- **An execution settles the row**, whatever the providers answer. -/
theorem wp_runJob {retries : ℕ} (job : Job) (hrow : row.status = .queued) :
    (runJob isWord isDigit checks settings retries draftId job).Wp Settles (some row) h := by
  unfold runJob
  split
  · exact wp_park hrow
  · refine wp_tryCatch.mpr (Wp.mono (wp_body job hrow) ?_)
    rintro (e | s) m' h' hr
    · obtain ⟨he, rfl⟩ := hr
      show (onFailure retries e).Wp _ _ _
      unfold onFailure
      split
      · exact wp_park hrow
      · rw [he, if_neg Bool.false_ne_true]
        exact wp_park hrow
    · obtain ⟨rfl, ha, row', rfl, hstatus⟩ := hr
      exact ⟨_, row', rfl, rfl, .inl ⟨rfl, hstatus, ha⟩⟩

/-- **The retries are kept for failures that never come**: the executions of a job are as promised
if, and only if, none of them meets a full outage. -/
theorem classified_iff {job : ℕ → Job} {xs : List Execution} (hrow : row.status = .queued)
    (h : Executions isWord isDigit checks settings draftId job 0 row xs) :
    (∀ x ∈ xs, Classified ((job x.retries).specs settings) x) ↔
      ∀ x ∈ xs, ¬ FullOutage ((job x.retries).specs settings) x.history := by
  cases h with
  | more hends hr _ =>
    obtain ⟨s, row', hresult, -⟩ := (wp_runJob (job 0) hrow).of_ends hends
    obtain ⟨e, he, -⟩ := hr
    cases hresult.symm.trans he
  | @last _ _ row' h result hends hr =>
    obtain ⟨s, row'', hresult, hrow', hend⟩ := (wp_runJob (job 0) hrow).of_ends hends
    obtain rfl : row' = row'' := Option.some.inj hrow'
    rw [List.forall_mem_singleton, List.forall_mem_singleton]
    constructor
    · intro hclassified houtage
      have hretried := hclassified.outage houtage
      rw [if_pos (show 0 < maxRetries by decide)] at hretried
      exact hr hretried.2
    · intro hno
      refine ⟨fun houtage => absurd houtage hno, fun _ => ⟨hr, ?_⟩, fun _ hqueued => ?_⟩
      · rcases hend with ⟨rfl, hstatus, -⟩ | hstatus
        · exact .inl ⟨hresult, hstatus⟩
        · exact .inr hstatus
      · rcases hend with ⟨-, hstatus, -⟩ | hstatus
        · rw [hstatus] at hqueued
          cases hqueued
        · rw [hstatus] at hqueued
          cases hqueued

end

/-! ### An answer, and an outage -/

def worker : Settings := ⟨⟨"large", "small", "large", "small", 30⟩, true, "key"⟩

def queuedRow : DraftRow :=
  ⟨"r1", "menu_description", some "i1", none, [], .queued, none, none, none⟩

def noChecks : Checks := ⟨fun _ => none, fun _ => none, fun s _ => .ok s, fun _ => ""⟩

def theProvider : ModelSpec := ⟨"openai", "large", 1024, 30⟩

/-- An execution in which the one provider of a worker is unavailable. -/
theorem exists_outage : ∃ x : Execution,
    Ends (runJob (fun _ => false) (fun _ => false) noChecks worker 0 "d1" .draftContent
      (some queuedRow)) [] (x.result, some x.row) x.history ∧ x.retries = 0 ∧
    x.row.status = .parked ∧ FullOutage (Job.draftContent.specs worker) x.history := by
  have hfirst : ∃ messages k, runJob (fun _ => false) (fun _ => false) noChecks worker 0 "d1"
      .draftContent (some queuedRow) = .op (.complete theProvider messages) k ∧
        ∃ r, k (.error ⟨.llmUnavailable, "503"⟩) = .ret r := ⟨_, _, rfl, _, rfl⟩
  obtain ⟨messages, k, hprog, ⟨result, m⟩, hk⟩ := hfirst
  have hends : Ends (runJob (fun _ => false) (fun _ => false) noChecks worker 0 "d1" .draftContent
      (some queuedRow)) [] (result, m)
      [⟨.complete theProvider messages, .error ⟨.llmUnavailable, "503"⟩⟩] := by
    rw [hprog]
    refine .op _ _ (.error ⟨.llmUnavailable, "503"⟩) ?_
    rw [hk]
    exact .ret _ _
  have houtage : FullOutage (Job.draftContent.specs worker)
      [⟨.complete theProvider messages, .error ⟨.llmUnavailable, "503"⟩⟩] := by
    have hspecs : Job.draftContent.specs worker = [theProvider] := by decide
    rw [hspecs]
    refine ⟨List.cons_ne_nil _ _, ?_, ?_⟩
    · intro spec hspec
      rw [List.mem_singleton.mp hspec]
      exact ⟨messages, _, List.mem_cons_self⟩
    · intro spec messages' r hmem
      cases List.mem_singleton.mp hmem
      exact ⟨_, rfl, rfl⟩
  obtain ⟨s, row', -, rfl, hend⟩ := (wp_runJob .draftContent rfl).of_ends hends
  refine ⟨⟨0, _, result, row'⟩, hends, rfl, ?_, houtage⟩
  rcases hend with ⟨-, -, ha⟩ | hstatus
  · exact absurd houtage (not_fullOutage_of_answered ha)
  · exact hstatus

/-- **A full outage parks the draft at once.** -/
theorem parked_in_outage : ∃ x : Execution,
    Ends (runJob (fun _ => false) (fun _ => false) noChecks worker 0 "d1" .draftContent
      (some queuedRow)) [] (x.result, some x.row) x.history ∧
    ¬ Classified (Job.draftContent.specs worker) x := by
  obtain ⟨x, hends, hretries, hstatus, houtage⟩ := exists_outage
  refine ⟨x, hends, fun hclassified => ?_⟩
  have hqueued := hclassified.outage houtage
  rw [hretries, if_pos (show 0 < maxRetries by decide), hstatus] at hqueued
  cases hqueued.1

def theAnswer : Completion := ⟨"Slow-cooked lentils.", .stop, "large", "openai", 80, 6⟩

/-- The provider answers, and the draft is kept. -/
theorem classified_answered : ∃ xs : List Execution,
    Executions (fun _ => false) (fun _ => false) noChecks worker "d1" (fun _ => .draftContent) 0
      queuedRow xs ∧ xs.map (fun x => (x.row.status, x.row.content)) =
        [(.drafted, some "Slow-cooked lentils.")] ∧
    ∀ x ∈ xs, Classified (Job.draftContent.specs worker) x := by
  have hfirst : ∃ messages k, runJob (fun _ => false) (fun _ => false) noChecks worker 0 "d1"
      .draftContent (some queuedRow) = .op (.complete theProvider messages) k ∧
        ∃ row, k (.ok theAnswer) = .ret (.ok "drafted", some row) ∧ row.status = .drafted ∧
          row.content = some "Slow-cooked lentils." := ⟨_, _, rfl, _, rfl, rfl, rfl⟩
  obtain ⟨messages, k, hprog, row, hk, hstatus, hcontent⟩ := hfirst
  have hends : Ends (runJob (fun _ => false) (fun _ => false) noChecks worker 0 "d1" .draftContent
      (some queuedRow)) [] (.ok "drafted", some row)
      [⟨.complete theProvider messages, .ok theAnswer⟩] := by
    rw [hprog]
    refine .op _ _ (.ok theAnswer) ?_
    rw [hk]
    exact .ret _ _
  have hr : ¬ Retried 0 (.ok "drafted") := by
    rintro ⟨e, ⟨⟩, -⟩
  have hexec : Executions (fun _ => false) (fun _ => false) noChecks worker "d1"
      (fun _ => .draftContent) 0 queuedRow
      [⟨0, [⟨.complete theProvider messages, .ok theAnswer⟩], .ok "drafted", row⟩] := .last hends hr
  refine ⟨_, hexec, by rw [List.map_singleton, hstatus, hcontent], (classified_iff rfl hexec).mpr ?_⟩
  intro x hx houtage
  rw [List.mem_singleton.mp hx] at houtage
  -- the provider has not failed
  obtain ⟨e, he, -⟩ := houtage.2.2 theProvider messages (.ok theAnswer) List.mem_cons_self
  cases he

end Assistant.Generation
