/-
A turn settles exactly if nothing is raised while a failure is being settled.

* `Settled` — one transaction wrote the row's status, and staged the one fact, with the outcome
  that goes with it;
* `Undisturbed` — what `_settle_failed` awaits until a commit has landed does not raise;
* `Talks` — a coroutine that only talks to readers, and its rules;
* `wp_settle` — the transaction that settles;
* `settled_iff` — the two are the same, however a turn ends.
-/
import SmartFoodOps.Assistant.Turns

open Interaction Interaction.Task

namespace Assistant

open Coroutine

/-! ### Histories -/

def raises (x : Sigma Answer) : Bool :=
  match x.1.result x.2 with
  | .ok _ => false
  | .error _ => true

def Landed (h : History Answer) : Prop := ∃ x ∈ h, lands x = true

instance (h : History Answer) : Decidable (Landed h) := inferInstanceAs (Decidable (∃ x ∈ h, _))

/-- What is awaited while a failure is settled, until a commit has landed, does not raise. -/
def Undisturbed : History Answer → Prop
  | [] => True
  | x :: h => Undisturbed h ∧ (x.1.place = .settling → raises x = true → Landed (x :: h))

/-- `finish_message` and `stage_interaction` wrote something. -/
def Transaction.writes (t : Transaction) : Bool := t.message.isSome || ! t.facts.isEmpty

/-- The fact's outcome goes with the row's status. -/
def Matches (row : MessageRow) (fact : Fact) (h : History Answer) : Prop :=
  row.status = .failed ∧ fact.outcome = "failed" ∨
    row.status = .complete ∧ ∃ state, (⟨.graph, .ok state⟩ : Sigma Answer) ∈ h ∧
      fact.outcome = outcomeOf state

/-- One transaction settled the row, and staged the one fact about it. -/
def Settled (db : Database) (h : History Answer) : Prop :=
  ∃ row fact, db.commits.filter Transaction.writes = [⟨some row, [fact]⟩] ∧ db.message = row ∧
    db.facts = [fact] ∧ Matches row fact h

variable {x : Sigma Answer} {l h : History Answer} {place : Place}

theorem Landed.append (hl : Landed h) : Landed (l ++ h) := by
  obtain ⟨y, hy, hlands⟩ := hl
  exact ⟨y, List.mem_append_right _ hy, hlands⟩

theorem landed_append (hl : ∀ y ∈ l, lands y = false) : Landed (l ++ h) ↔ Landed h := by
  constructor
  · rintro ⟨y, hy, hlands⟩
    rcases List.mem_append.mp hy with hy | hy
    · rw [hl y hy] at hlands
      cases hlands
    · exact ⟨y, hy, hlands⟩
  · exact Landed.append

/-- Once a commit has landed, nothing disturbs. -/
theorem Undisturbed.append (hl : Landed h) (hu : Undisturbed h) : Undisturbed (l ++ h) := by
  induction l with
  | nil => exact hu
  | cons x l ih => exact ⟨ih, fun _ _ => @Landed.append (x :: l) h hl⟩

/-- What does not raise does not disturb, and neither does what the turn itself awaits. -/
theorem undisturbed_append (hu : Undisturbed h)
    (hl : ∀ y ∈ l, y.1.place = .settling → raises y = false) : Undisturbed (l ++ h) := by
  induction l with
  | nil => exact hu
  | cons x l ih =>
    refine ⟨ih fun y hy => hl y (List.mem_cons_of_mem _ hy), fun hx hraises => ?_⟩
    rw [hl x List.mem_cons_self hx] at hraises
    cases hraises

theorem Undisturbed.of_append (hu : Undisturbed (l ++ h)) : Undisturbed h := by
  induction l with
  | nil => exact hu
  | cons x l ih => exact ih hu.1

/-- What raises while nothing has landed disturbs. -/
theorem not_undisturbed_append (hland : ¬ Landed h) (hl : ∀ y ∈ l, lands y = false)
    (hplace : ∀ y ∈ l, y.1.place = .settling) (hraises : ∃ y ∈ l, raises y = true) :
    ¬ Undisturbed (l ++ h) := by
  intro hu
  obtain ⟨y, hy, hy'⟩ := hraises
  obtain ⟨l₁, l₂, rfl⟩ := List.append_of_mem hy
  rw [List.append_assoc] at hu
  have hy₂ : Landed ((y :: l₂) ++ h) := (Undisturbed.of_append hu).2 (hplace y hy) hy'
  exact hland ((landed_append fun z hz => hl z (List.mem_append_right _ hz)).mp hy₂)

/-! ### Talking -/

/-- How a coroutine that only talks has ended: it raises what one of its operations raised. -/
structure Talk {α : Type} (place : Place) (r : Except Raised α) (l : History Answer) : Prop where
  place : ∀ y ∈ l, y.1.place = place
  lands : ∀ y ∈ l, lands y = false
  raises : match r with
    | .ok _ => ∀ y ∈ l, raises y = false
    | .error _ => ∃ y ∈ l, raises y = true

/-- Whatever it is answered, the coroutine leaves the database alone. -/
def Talks {α : Type} (place : Place) (x : Coroutine α) : Prop :=
  ∀ m h, x.Wp (fun r m' h' => m'.db = m.db ∧ ∃ l, h' = l ++ h ∧ Talk place r l) m h

variable {α β : Type} {turn : Turn}

theorem talks_pure {a : α} : Talks place (pure a) :=
  fun _ _ => ⟨rfl, [], rfl, ⟨by simp, by simp, by simp⟩⟩

theorem talks_get : Talks place get :=
  fun _ _ => ⟨rfl, [], rfl, ⟨by simp, by simp, by simp⟩⟩

theorem talks_modify {g : Memory → Memory} (hg : ∀ m, (g m).db = m.db) : Talks place (modify g) :=
  fun m _ => ⟨hg m, [], rfl, ⟨by simp, by simp, by simp⟩⟩

theorem Talks.bind {x : Coroutine α} {f : α → Coroutine β} (hx : Talks place x)
    (hf : ∀ a, Talks place (f a)) : Talks place (x >>= f) := by
  intro m h
  rw [wp_bind]
  refine (hx m h).mono ?_
  rintro (e | a) m' h' ⟨hdb, l, rfl, htalk⟩
  · exact ⟨hdb, l, rfl, htalk.place, htalk.lands, htalk.raises⟩
  · refine (hf a m' (l ++ h)).mono ?_
    rintro r m'' h'' ⟨hdb', l', rfl, htalk'⟩
    refine ⟨hdb'.trans hdb, l' ++ l, (List.append_assoc _ _ _).symm, ?_, ?_, ?_⟩
    · intro y hy
      exact (List.mem_append.mp hy).elim (htalk'.place y) (htalk.place y)
    · intro y hy
      exact (List.mem_append.mp hy).elim (htalk'.lands y) (htalk.lands y)
    · rcases r with e | b
      · obtain ⟨y, hy, hraises⟩ := htalk'.raises
        exact ⟨y, List.mem_append_left _ hy, hraises⟩
      · intro y hy
        exact (List.mem_append.mp hy).elim (htalk'.raises y) (htalk.raises y)

theorem talks_await {o : Op} (hplace : o.place = place) (hlands : ∀ r, lands ⟨o, r⟩ = false) :
    Talks place (await o) := by
  intro m h
  refine wp_await.mpr fun r => ⟨rfl, [⟨o, r⟩], rfl, ?_, ?_, ?_⟩
  · exact fun y hy => List.mem_singleton.mp hy ▸ hplace
  · exact fun y hy => List.mem_singleton.mp hy ▸ hlands r
  · rcases hr : o.result r with e | a
    · exact ⟨_, List.mem_singleton_self _, by unfold raises; rw [hr]⟩
    · intro y hy
      rw [List.mem_singleton.mp hy]
      unfold raises
      rw [hr]

theorem Talks.when {x : Coroutine Unit} {c : Bool} (hx : Talks place x) :
    Talks place (Coroutine.when c x) := by
  cases c with
  | true => exact hx
  | false => exact talks_pure

theorem talks_attached : Talks place (attached turn place) := by
  refine talks_get.bind fun m => Talks.when (Talks.bind (talks_modify ?_) fun _ => Talks.when ?_)
  · exact fun _ => rfl
  · exact talks_await (o := .ready place _) rfl fun _ => rfl

theorem talks_write {text : String} : Talks place (write turn place text) := by
  refine talks_attached.bind fun _ => Talks.bind (talks_modify ?_) fun _ => ?_
  · exact fun _ => rfl
  · exact talks_await (o := .publish place _ _) rfl fun _ => rfl

theorem talks_release {out : List Char × Stripper} : Talks place (release turn place out) := by
  refine Talks.bind (talks_modify ?_) fun _ => Talks.when talks_write
  exact fun _ => rfl

theorem talks_emit {text : String} : Talks place (emit turn place text) :=
  talks_get.bind fun _ => talks_release

theorem talks_flush : Talks place (flush turn place) := talks_get.bind fun _ => talks_release

theorem talks_close {itemIds : List String} : Talks place (close turn place itemIds) :=
  talks_attached.bind fun _ => talks_await (o := .publish place _ _) rfl fun _ => rfl

/-- What the graph returns is what it was awaited for. -/
theorem wp_invoke {tokens : List String} {m : Memory} : (invoke turn tokens).Wp (fun r _ h =>
    ∀ state, r = .ok state → (⟨.graph, .ok state⟩ : Sigma Answer) ∈ h) m h := by
  induction tokens generalizing m h with
  | nil =>
    refine wp_await.mpr fun r => ?_
    rintro state rfl
    exact List.mem_cons_self
  | cons token tokens ih =>
    refine Wp.bind (talks_emit m h) (fun _ m' h' _ => ih) ?_
    rintro e m' h' - state he
    cases he

theorem talks_invoke {tokens : List String} : Talks .turn (invoke turn tokens) := by
  induction tokens with
  | nil => exact talks_await (o := .graph) rfl fun _ => rfl
  | cons token tokens ih => exact talks_emit.bind fun _ => ih

/-! ### The database -/

section

variable {m : Memory} {row : MessageRow} {fact : Fact}

theorem wp_statement {Q : Except Raised Unit → Memory → History Answer → Prop} :
    (await (.statement place)).Wp Q m h ↔
      Q (.ok ()) m (⟨.statement place, false⟩ :: h) ∧
        Q (.error .cancelled) m (⟨.statement place, true⟩ :: h) :=
  wp_await.trans Bool.forall_bool

/-- A row that is streaming is settled, unless the statement is cancelled. -/
theorem wp_finishMessage {Q : Except Raised Bool → Memory → History Answer → Prop} :
    (finishMessage place row).Wp Q m h ↔
      (if m.db.message.status = .streaming then
        Q (.ok true) { m with transaction := { m.transaction with message := some row } }
          (⟨.statement place, false⟩ :: h)
      else Q (.ok false) m (⟨.statement place, false⟩ :: h)) ∧
        Q (.error .cancelled) m (⟨.statement place, true⟩ :: h) := by
  unfold finishMessage
  rw [wp_bind, wp_statement]
  refine and_congr_left fun _ => ?_
  show Wp (get >>= _) Q m _ ↔ _
  rw [wp_bind, wp_get]
  show Wp (if m.db.message.status = .streaming then _ else _) Q m _ ↔ _
  split
  · rw [wp_bind, wp_modify]
    exact Iff.rfl
  · exact Iff.rfl

theorem wp_stageInteraction {Q : Except Raised Unit → Memory → History Answer → Prop} :
    (stageInteraction place fact).Wp Q m h ↔
      Q (.ok ()) { m with
        transaction := { m.transaction with facts := m.transaction.facts ++ [fact] } }
          (⟨.statement place, false⟩ :: h) ∧
        Q (.error .cancelled) m (⟨.statement place, true⟩ :: h) := by
  unfold stageInteraction
  rw [wp_bind, wp_statement]
  exact Iff.rfl

theorem wp_commit {Q : Except Raised Unit → Memory → History Answer → Prop} :
    (Coroutine.commit place).Wp Q m h ↔ ∀ r, Q (Op.result (.commit place) r)
      (if lands ⟨.commit place, r⟩ then { m with db := m.db.apply m.transaction } else m)
      (⟨.commit place, r⟩ :: h) := by
  constructor
  · exact fun hx r => hx.2 r
  · exact fun hx => ⟨trivial, hx⟩

end

/-! ### Stages of a turn -/

/-- The row is streaming, and nothing stands in the way of settling it. -/
def Waiting (m : Memory) (h : History Answer) : Prop :=
  m.db = .started ∧ ¬ Landed h ∧ Undisturbed h

def Done (m : Memory) (h : History Answer) : Prop :=
  Landed h ∧ Undisturbed h ∧ Settled m.db h

/-- The row is streaming, and a failure was not settled. -/
def Lost (m : Memory) (h : History Answer) : Prop :=
  m.db = .started ∧ ¬ Undisturbed h

variable {m m' : Memory} {r : Except Raised α} {row : MessageRow} {fact : Fact}

theorem Matches.append (hm : Matches row fact h) : Matches row fact (l ++ h) := by
  rcases hm with hm | ⟨hstatus, state, hstate, houtcome⟩
  · exact .inl hm
  · exact .inr ⟨hstatus, state, List.mem_append_right _ hstate, houtcome⟩

theorem Done.append (hd : Done m h) (hdb : m'.db = m.db) : Done m' (l ++ h) := by
  obtain ⟨hland, hu, row, fact, hcommits, hrow, hfact, hmatches⟩ := hd
  refine ⟨hland.append, hu.append hland, row, fact, ?_, ?_, ?_, hmatches.append⟩
  · rw [hdb, hcommits]
  · rw [hdb, hrow]
  · rw [hdb, hfact]

theorem Waiting.of_talk (hw : Waiting m h) (hdb : m'.db = m.db) (ht : Talk place r l)
    (hl : ∀ y ∈ l, y.1.place = .settling → raises y = false) : Waiting m' (l ++ h) :=
  ⟨hdb.trans hw.1, fun hland => hw.2.1 ((landed_append ht.lands).mp hland),
    undisturbed_append hw.2.2 hl⟩

theorem Waiting.lost {e : Raised} (hw : Waiting m h) (hdb : m'.db = m.db)
    (ht : Talk .settling (.error e : Except Raised α) l) : Lost m' (l ++ h) :=
  ⟨hdb.trans hw.1, not_undisturbed_append hw.2.1 ht.lands ht.place ht.raises⟩

theorem Lost.append (hlost : Lost m h) (hdb : m'.db = m.db) : Lost m' (l ++ h) :=
  ⟨hdb.trans hlost.1, fun hu => hlost.2 hu.of_append⟩

/-! ### The transaction -/

theorem wp_closeSession {Q : Except Raised Unit → Memory → History Answer → Prop} :
    (await (.closeSession place)).Wp Q m h ↔
      Q (.ok ()) m (⟨.closeSession place, false⟩ :: h) ∧
        Q (.error .cancelled) m (⟨.closeSession place, true⟩ :: h) :=
  wp_await.trans Bool.forall_bool

/-- A session, of which it is known how its body leaves it. -/
theorem wp_inSession {body : Coroutine α} {R Q : Except Raised α → Memory → History Answer → Prop}
    (hbody : body.Wp R { m with transaction := {} } h)
    (hok : ∀ r m h, R r m h → Q r m (⟨.closeSession place, false⟩ :: h))
    (hcancelled : ∀ r m h, R r m h → Q (.error .cancelled) m (⟨.closeSession place, true⟩ :: h)) :
    (inSession place body).Wp Q m h := by
  refine Wp.tryFinally (R := R) (wp_bind.mpr hbody) fun r m h hr => ?_
  exact wp_closeSession.mpr ⟨hok r m h hr, hcancelled r m h hr⟩

/-- An empty transaction changes nothing. -/
theorem Done.apply_empty (hd : Done m h) : Done { m with db := m.db.apply {} } h := by
  obtain ⟨hland, hu, row, fact, hcommits, hrow, hfact, hmatches⟩ := hd
  refine ⟨hland, hu, row, fact, ?_, hrow, ?_, hmatches⟩
  · show (m.db.commits ++ [_]).filter Transaction.writes = _
    rw [List.filter_append, hcommits]
    rfl
  · show m.db.facts ++ [] = _
    rw [List.append_nil, hfact]

/-- A row that has been settled is not settled again. -/
theorem wp_settle_of_done (hd : Done m h) :
    (settle place row fact).Wp (fun _ m h => Done m h) m h := by
  have hstatus : m.db.message.status ≠ .streaming := by
    obtain ⟨-, -, row, fact, -, hrow, -, hmatches⟩ := hd
    rw [hrow]
    rcases hmatches with ⟨hs, -⟩ | ⟨hs, -⟩
    · rw [hs]
      decide
    · rw [hs]
      decide
  refine wp_inSession (R := fun _ m h => Done m h) ?_ (fun _ m h hd => hd.append (l := [_]) rfl)
    fun _ m h hd => hd.append (l := [_]) rfl
  refine wp_bind.mpr (wp_finishMessage.mpr ⟨?_, hd.append (l := [_]) rfl⟩)
  rw [if_neg hstatus]
  show Wp (Coroutine.commit place >>= fun _ => pure false) _ _ _
  refine Wp.bind (R := fun _ m h => Done m h) (wp_commit.mpr fun c => ?_) (fun _ _ _ hd => hd)
    fun _ _ _ hd => hd
  split
  · exact Done.append (l := [_, _]) hd.apply_empty rfl
  · exact hd.append (l := [_, _]) rfl

/-- How the transaction of a row that is streaming ends: it is settled, or something was raised and
nothing has changed. -/
def Tried (place : Place) (h : History Answer) (r : Except Raised α) (m' : Memory)
    (h' : History Answer) : Prop :=
  Done m' h' ∨ m'.db = .started ∧ ∃ e, r = .error e ∧ ∃ l, h' = l ++ h ∧ Talk place r l

theorem Tried.error {e : Raised} (hdb : m.db = .started) (hplace : ∀ y ∈ l, y.1.place = place)
    (hlands : ∀ y ∈ l, lands y = false) (hraises : ∃ y ∈ l, raises y = true) :
    Tried place h (.error e : Except Raised α) m (l ++ h) :=
  .inr ⟨hdb, e, rfl, l, rfl, hplace, hlands, hraises⟩

/-- What the transaction writes is there once it has landed. -/
theorem Waiting.apply (hw : Waiting m h) (hmatches : Matches row fact h)
    (hlands : ∃ y ∈ l, lands y = true) (hraises : Undisturbed (l ++ h)) :
    Done { m with db := m.db.apply ⟨some row, [fact]⟩ } (l ++ h) := by
  obtain ⟨y, hy, hy'⟩ := hlands
  refine ⟨⟨y, List.mem_append_left _ hy, hy'⟩, hraises, row, fact, ?_, rfl, ?_, hmatches.append⟩
  · rw [hw.1]
    rfl
  · rw [hw.1]
    rfl

/-- **The transaction** settles a row that is streaming, unless it is cancelled. -/
theorem wp_settle_of_waiting (hw : Waiting m h) (hmatches : Matches row fact h) :
    (settle place row fact).Wp (Tried place h) m h := by
  have hstatus : m.db.message.status = .streaming := by rw [hw.1]; rfl
  refine wp_inSession (R := Tried place h) ?_ ?_ ?_
  · refine wp_bind.mpr (wp_finishMessage.mpr ⟨?_, ?_⟩)
    · rw [if_pos hstatus]
      show Wp (stageInteraction place fact >>= fun _ => _) _ _ _
      refine wp_bind.mpr (wp_stageInteraction.mpr ⟨?_, ?_⟩)
      · show Wp (Coroutine.commit place >>= fun _ => pure true) _ _ _
        refine wp_bind.mpr (wp_commit.mpr fun c => ?_)
        rcases c with _ | applied
        · refine .inl (hw.apply (l := [_, _, _]) hmatches ⟨_, List.mem_cons_self, rfl⟩ ?_)
          refine undisturbed_append hw.2.2 ?_
          simp [raises, Op.result]
        · cases applied with
          | true =>
            -- the cancellation comes too late to keep the row from being settled
            refine .inl (hw.apply (l := [_, _, _]) hmatches ⟨_, List.mem_cons_self, rfl⟩ ?_)
            refine ⟨undisturbed_append (l := [_, _]) hw.2.2 ?_, fun _ _ => ?_⟩
            · simp [raises, Op.result]
            · exact ⟨_, List.mem_cons_self, rfl⟩
          | false =>
            refine Tried.error (l := [_, _, _]) hw.1 ?_ ?_ ⟨_, List.mem_cons_self, rfl⟩
            · simp [Op.place]
            · simp [lands]
      · refine Tried.error (l := [_, _]) hw.1 ?_ ?_ ⟨_, List.mem_cons_self, rfl⟩
        · simp [Op.place]
        · simp [lands]
    · refine Tried.error (l := [_]) hw.1 ?_ ?_ ⟨_, List.mem_cons_self, rfl⟩
      · simp [Op.place]
      · simp [lands]
  · rintro r m' h' (hd | ⟨hdb, e, rfl, l, rfl, ht⟩)
    · exact .inl (hd.append (l := [_]) rfl)
    · obtain ⟨y, hy, hraises⟩ := ht.raises
      refine Tried.error (l := _ :: l) hdb ?_ ?_ ⟨y, List.mem_cons_of_mem _ hy, hraises⟩
      · exact List.forall_mem_cons.mpr ⟨rfl, ht.place⟩
      · exact List.forall_mem_cons.mpr ⟨rfl, ht.lands⟩
  · rintro r m' h' (hd | ⟨hdb, e, rfl, l, rfl, ht⟩)
    · exact .inl (hd.append (l := [_]) rfl)
    · refine Tried.error (l := _ :: l) hdb ?_ ?_ ⟨_, List.mem_cons_self, rfl⟩
      · exact List.forall_mem_cons.mpr ⟨rfl, ht.place⟩
      · exact List.forall_mem_cons.mpr ⟨rfl, ht.lands⟩

/-! ### The turn -/

/-- What a coroutine that only talks leaves of a row that is done, or waits. -/
theorem Talks.wp_done {x : Coroutine α} (hx : Talks place x) (hd : Done m h) :
    x.Wp (fun _ m h => Done m h) m h := by
  refine (hx m h).mono ?_
  rintro r m' h' ⟨hdb, l, rfl, -⟩
  exact hd.append hdb

/-- **A failure is settled**, unless something is raised meanwhile. -/
theorem wp_settleFailed (hw : Waiting m h) :
    (settleFailed turn).Wp (fun r m h => Done m h ∨ Lost m h ∧ ∃ e, r = .error e) m h := by
  have htalk : ∀ {β : Type} {x : Coroutine β} {m : Memory} {h}, Talks .settling x → Waiting m h →
      x.Wp (fun r m h => match r with
        | .ok _ => Waiting m h
        | .error _ => Lost m h) m h := by
    intro β x m h hx hw
    refine (hx m h).mono ?_
    rintro (e | a) m' h' ⟨hdb, l, rfl, ht⟩
    · exact hw.lost hdb ht
    · exact hw.of_talk hdb ht fun y hy _ => ht.raises y hy
  unfold settleFailed
  rw [wp_bind, wp_get]
  refine Wp.bind (htalk talks_emit hw) (fun _ m h hw => ?_) fun e _ _ hl => .inr ⟨hl, e, rfl⟩
  refine Wp.bind (htalk talks_flush hw) (fun _ m h hw => ?_) fun e _ _ hl => .inr ⟨hl, e, rfl⟩
  rw [wp_bind, wp_get]
  refine Wp.bind (wp_settle_of_waiting hw (.inl ⟨rfl, rfl⟩)) ?_ ?_
  · rintro _ m' h' (hd | ⟨-, e, he, -⟩)
    · exact .inl hd
    · cases he
  · rintro e m' h' (hd | ⟨hdb, _, -, l, rfl, ht⟩)
    · exact .inl hd
    · exact .inr ⟨hw.lost (hdb.trans hw.1.symm) ht, e, rfl⟩

theorem wp_settleFailed_of_done (hd : Done m h) :
    (settleFailed turn).Wp (fun _ m h => Done m h) m h := by
  unfold settleFailed
  rw [wp_bind, wp_get]
  refine Wp.bind (talks_emit.wp_done hd) (fun _ m h hd => ?_) fun _ _ _ hd => hd
  refine Wp.bind (talks_flush.wp_done hd) (fun _ m h hd => ?_) fun _ _ _ hd => hd
  rw [wp_bind, wp_get]
  exact Wp.bind (wp_settle_of_done hd) (fun _ _ _ hd => hd) fun _ _ _ hd => hd

/-- **The turn itself**: the row is settled, or something was raised and the row still waits. -/
theorem wp_answerTurn {tokens : List String} (hw : Waiting m h) :
    (answerTurn turn tokens).Wp (fun r m h => Done m h ∨ Waiting m h ∧ ∃ e, r = .error e) m h := by
  have htalk : ∀ {β : Type} {x : Coroutine β} {m : Memory} {h}, Talks .turn x → Waiting m h →
      x.Wp (fun _ m' h' => Waiting m' h' ∧ ∃ l, h' = l ++ h) m h := by
    intro β x m h hx hw
    refine (hx m h).mono ?_
    rintro r m' h' ⟨hdb, l, rfl, ht⟩
    refine ⟨hw.of_talk hdb ht fun y hy hplace => ?_, l, rfl⟩
    rw [ht.place y hy] at hplace
    cases hplace
  refine Wp.bind ((htalk talks_invoke hw).and wp_invoke) ?_
    fun e _ _ hr => .inr ⟨hr.1.1, e, rfl⟩
  rintro state m h ⟨⟨hw, -⟩, hstate⟩
  have hanswered := hstate state rfl
  rw [wp_bind, wp_modify]
  show Wp (get >>= _) _ _ _
  rw [wp_bind, wp_get]
  have hw' : Waiting { m with itemIds := state.itemIds } h := hw
  refine Wp.bind (htalk (talks_emit.when) hw') ?_ fun e _ _ hr => .inr ⟨hr.1, e, rfl⟩
  rintro - m h ⟨hw, l, rfl⟩
  refine Wp.bind (htalk talks_flush hw) ?_ fun e _ _ hr => .inr ⟨hr.1, e, rfl⟩
  rintro - m h ⟨hw, l', rfl⟩
  rw [wp_bind, wp_get]
  have hmatches : ∀ answer, Matches ⟨answer, .complete, state.itemIds⟩
      (factOf turn (outcomeOf state) state) (l' ++ (l ++ _)) := fun answer =>
    .inr ⟨rfl, state, List.mem_append_right _ (List.mem_append_right _ hanswered), rfl⟩
  refine Wp.bind (wp_settle_of_waiting hw (hmatches _)) ?_ ?_
  · rintro settled m h (hd | ⟨-, e, he, -⟩)
    · exact (Talks.wp_done (Talks.when (talks_await (o := .shown _ _ _) rfl fun _ => rfl)) hd).mono
        fun _ _ _ hd => .inl hd
    · cases he
  · rintro e m h (hd | ⟨hdb, _, -, l, rfl, ht⟩)
    · exact .inl hd
    · refine .inr ⟨hw.of_talk (hdb.trans hw.1.symm) ht fun y hy hplace => ?_, e, rfl⟩
      rw [ht.place y hy] at hplace
      cases hplace

/-- **What was raised** is settled, or lost. -/
theorem wp_onRaised {e : Raised} (hw : Done m h ∨ Waiting m h) :
    (onRaised turn e).Wp (fun _ m h => Done m h ∨ Lost m h) m h := by
  have hfailed : (settleFailed turn).Wp (fun _ m h => Done m h ∨ Lost m h) m h := by
    rcases hw with hd | hw
    · exact (wp_settleFailed_of_done hd).mono fun _ _ _ hd => .inl hd
    · refine (wp_settleFailed hw).mono ?_
      rintro r m h (hd | ⟨hl, -⟩)
      · exact .inl hd
      · exact .inr hl
  cases e with
  | exception => exact hfailed
  | cancelled =>
    unfold onRaised
    rw [wp_bind, wp_tryCatch]
    refine hfailed.mono ?_
    rintro ((_ | _) | _) m h hr
    · exact hr
    · exact hr
    · exact hr

/-- **However a turn ends**, its row is settled or lost. -/
theorem wp_runTurn {tokens : List String} (hw : Waiting m h) :
    (runTurn turn tokens).Wp (fun _ m h => Done m h ∨ Lost m h) m h := by
  refine Wp.tryFinally (R := fun _ m h => Done m h ∨ Lost m h) ?_ ?_
  · refine wp_tryCatch.mpr ((wp_answerTurn hw).mono ?_)
    rintro (e | a) m h (hd | ⟨hw, e', he⟩)
    · exact wp_onRaised (.inl hd)
    · exact wp_onRaised (.inr hw)
    · exact .inl hd
    · cases he
  · intro r m h hr
    rw [wp_bind, wp_get]
    refine (talks_close m h).mono ?_
    rintro r' m' h' ⟨hdb, l, rfl, -⟩
    have hend : Done m' (l ++ h) ∨ Lost m' (l ++ h) := by
      rcases hr with hd | hl
      · exact .inl (hd.append hdb)
      · exact .inr (hl.append hdb)
    cases r' with
    | ok _ => exact hend
    | error _ => exact hend

/-- **A turn settles** exactly if nothing that is awaited while a failure is settled raises before
the commit has landed. -/
theorem settled_iff {tokens : List String} {r : Except Raised Unit} {m : Memory}
    {h : History Answer} (hends : Ends (runTurn turn tokens {}) [] (r, m) h) :
    Settled m.db h ↔ Undisturbed h := by
  have hstart : Waiting {} [] := ⟨rfl, fun ⟨_, hy, _⟩ => (List.not_mem_nil hy).elim, trivial⟩
  rcases Holds.of_ends hends (wp_runTurn hstart) with ⟨-, hu, hs⟩ | ⟨hdb, hu⟩
  · exact ⟨fun _ => hu, fun _ => hs⟩
  · refine ⟨fun hs => ?_, fun h => absurd h hu⟩
    obtain ⟨row, fact, hcommits, -⟩ := hs
    rw [hdb] at hcommits
    cases hcommits

def dinnerTurn : Turn := ⟨"m1", "c1", "u1", "Oslo", true, true⟩

/-- The provider is down: the graph raises. -/
def providerDown (_ : History Answer) : (o : Op) → Answer o
  | .ready _ _ | .publish _ _ _ | .shown _ _ _ => .ok ()
  | .graph => .error .exception
  | .statement _ | .closeSession _ => false
  | .commit _ => .done

/-- The bus is down as well. -/
def busDown (h : History Answer) : (o : Op) → Answer o
  | .publish _ _ _ => .error .exception
  | o => providerDown h o

theorem settled_apology : ∃ r m h, Ends (runTurn dinnerTurn [] {}) [] (r, m) h ∧
    (Settled m.db h ↔ Undisturbed h) ∧ m.db.message.status = .failed := by
  obtain ⟨⟨r, m⟩, h, hends, hrow⟩ : ∃ a h, Ends (runTurn dinnerTurn [] {}) [] a h ∧
      a.2.db.message.status = .failed := ⟨_, _, ends_runWith providerDown, by decide +kernel⟩
  exact ⟨r, m, h, hends, settled_iff hends, hrow⟩

/-- **Left streaming**: the apology cannot be published, so the failure is not recorded. -/
theorem left_streaming : ∃ r m h, Ends (runTurn dinnerTurn [] {}) [] (r, m) h ∧
    m.db.message.status = .streaming ∧ m.db.facts = [] ∧ ¬ Settled m.db h := by
  obtain ⟨⟨r, m⟩, h, hends, hrow, hfacts⟩ : ∃ a h, Ends (runTurn dinnerTurn [] {}) [] a h ∧
      a.2.db.message.status = .streaming ∧ a.2.db.facts = [] :=
    ⟨_, _, ends_runWith busDown, by decide +kernel⟩
  refine ⟨r, m, h, hends, hrow, hfacts, ?_⟩
  rintro ⟨row, fact, -, -, hfact, -⟩
  rw [show m.db.facts = [] from hfacts] at hfact
  cases hfact

end Assistant
