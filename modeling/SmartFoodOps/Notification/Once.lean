/-
The inbox holds each fact once, whatever is delivered again and whoever reads.

* `step_cases` — a step writes the notifications of one event, or marks some of one recipient's,
  or leaves them;
* `Kept`, `kept_of_run` — each row is a notification of an event that was handled, and each of
  those has its row;
* `Aged` — rows only come to be read, and stay so;
* `inbox_of_run` — what holds of the inbox after any run, and of reading it page by page.
-/
import SmartFoodOps.Notification.Inbox

open Machine Keyed

namespace Notification

section

variable {uuid5 : String → String} {customerOf : String → Option String}
  {log : Table Event EventId Event.id} {w w' w'' : World} {i : Label} {is : List Label}
  {e : Event} {d : Draft} {ds : List Draft} {row row' : Row} {t t' t'' : Notifications}

/-! ### Minting -/

theorem mem_mint_of_mem (hrow : row ∈ t) : row ∈ mint uuid5 t e ds := by
  unfold mint
  induction ds generalizing t with
  | nil => exact hrow
  | cons d ds ih => exact ih (Table.mem_insertOrIgnore.mpr (.inl hrow))

theorem mem_of_mem_mint (hrow : row ∈ mint uuid5 t e ds) :
    row ∈ t ∨ ∃ d ∈ ds, row = ⟨factOf uuid5 e d, none⟩ := by
  unfold mint at hrow
  induction ds generalizing t with
  | nil => exact .inl hrow
  | cons d ds ih =>
    rcases ih hrow with hold | ⟨d', hd', h⟩
    · rcases Table.mem_insertOrIgnore.mp hold with hold | ⟨-, h⟩
      · exact .inl hold
      · exact .inr ⟨d, List.mem_cons_self, h⟩
    · exact .inr ⟨d', List.mem_cons_of_mem _ hd', h⟩

theorem exists_mem_mint (hd : d ∈ ds) :
    ∃ row ∈ mint uuid5 t e ds, row.id = notificationId uuid5 e.id d.recipient := by
  induction ds generalizing t with
  | nil => cases hd
  | cons d' ds ih =>
    rcases List.mem_cons.mp hd with rfl | hd
    · obtain ⟨row, hrow, hid⟩ := t.exists_mem_insertOrIgnore ⟨factOf uuid5 e d, none⟩
      have hkept : row ∈ mint uuid5 (t.insertOrIgnore ⟨factOf uuid5 e d, none⟩) e ds :=
        mem_mint_of_mem hrow
      exact ⟨row, hkept, hid⟩
    · exact ih hd

/-! ### What a step does -/

/-- The step at which the notifications of an event are written. -/
def Finishes (i : Label) (e : Event) : Prop :=
  match e.body with
  | .order _ _ => i = .deliver e
  | .payment _ _ => i = .write e.id
  | .foreign => False

/-- The refunds that workflows know of are facts, and their customers are looked up. -/
def Looked (customerOf : String → Option String) (log : Table Event EventId Event.id) (w : World) :
    Prop :=
  ∀ refund ∈ w.refunds, refund.event ∈ log ∧
    (∃ p, refund.event.body = .payment .refundProcessed p) ∧
    ∀ userId ∈ refund.userId, customerOf refund.event.body.orderId = some userId

/-- A step of a recipient. -/
def Marks (i : Label) (recipient : Recipient) (now : ℕ) : Prop :=
  (∃ id, i = .markRead recipient id now) ∨ i = .markAllRead recipient now

/-- **A step** writes the notifications of an event, leaves them all, or marks some of those of
one recipient that were not read. -/
theorem step_cases (hlooked : Looked customerOf log w)
    (hs : step uuid5 customerOf log w i = some w') :
    (∃ e ∈ log, (∀ e' ∈ log, Finishes i e' ↔ e' = e) ∧ w'.refunds = w.refunds ∧
      w'.handled = e :: w.handled ∧
      w'.notifications = mint uuid5 w.notifications e (drafts customerOf e)) ∨
    ((∀ e' ∈ log, ¬ Finishes i e') ∧ Looked customerOf log w' ∧ w'.handled = w.handled ∧
      w'.notifications = w.notifications) ∨
    ∃ recipient now, Marks i recipient now ∧ (∀ e' ∈ log, ¬ Finishes i e') ∧
      w'.refunds = w.refunds ∧ w'.handled = w.handled ∧
      ∃ p : Row → Bool, (∀ row, p row → row.recipient = recipient ∧ row.readAt = none) ∧
        w'.notifications = w.notifications.updateWhere p
          (fun row => { row with readAt := some now }) fun _ => rfl := by
  cases i with
  | deliver e =>
    have hdeliver : (if e ∈ log then some (w.handle uuid5 e) else none) = some w' := hs
    by_cases hlog : e ∈ log
    · have hw : w.handle uuid5 e = w' := by
        rw [if_pos hlog] at hdeliver
        exact Option.some.inj hdeliver
      unfold World.handle at hw
      split at hw
      · next p hbody =>
        refine .inr (.inl ⟨fun e' _ => ?_, ?_, by rw [← hw], by rw [← hw]⟩)
        · unfold Finishes
          split
          · next h => rintro ⟨rfl⟩; rw [hbody] at h; cases h
          · nofun
          · exact not_false
        · rw [← hw]
          intro refund hrefund
          rcases Table.mem_insertOrIgnore.mp hrefund with hold | ⟨-, rfl⟩
          · exact hlooked refund hold
          · exact ⟨hlog, ⟨p, hbody⟩, nofun⟩
      · next type p hbody =>
        have hdrafts : drafts customerOf e = orderDrafts type p := by
          unfold drafts
          rw [hbody]
        refine .inl ⟨e, hlog, fun e' _ => ⟨fun h => ?_, ?_⟩, by rw [← hw], by rw [← hw], ?_⟩
        · unfold Finishes at h
          split at h
          · exact (Label.deliver.inj h).symm
          · cases h
          · exact h.elim
        · rintro rfl
          unfold Finishes
          rw [hbody]
        · rw [← hw, hdrafts]
      · next hrefund horder =>
        subst hw
        refine .inr (.inl ⟨fun e' _ h => ?_, hlooked, rfl, rfl⟩)
        unfold Finishes at h
        split at h
        · next type p hbody =>
          obtain rfl := Label.deliver.inj h
          exact horder type p hbody
        · cases h
        · exact h
    · rw [if_neg hlog] at hdeliver
      cases hdeliver
  | fetch id =>
    obtain ⟨refund, hfind, hs⟩ := Option.bind_eq_some_iff.mp hs
    obtain ⟨userId, huser, rfl⟩ := Option.map_eq_some_iff.mp hs
    obtain ⟨hmem, -⟩ := Table.find_eq_some.mp hfind
    refine .inr (.inl ⟨fun e' _ h => ?_, fun x hx => ?_, rfl, rfl⟩)
    · unfold Finishes at h
      split at h <;> cases h
    · rcases Table.mem_put.mp hx with rfl | ⟨hold, -⟩
      · obtain ⟨hlog, hbody, -⟩ := hlooked refund hmem
        refine ⟨hlog, hbody, fun u hu => ?_⟩
        cases hu
        exact huser
      · exact hlooked x hold
  | write id =>
    obtain ⟨refund, hfind, hs⟩ := Option.bind_eq_some_iff.mp hs
    obtain ⟨userId, huser, rfl⟩ := Option.map_eq_some_iff.mp hs
    obtain ⟨hmem, rfl⟩ := Table.find_eq_some.mp hfind
    obtain ⟨hlog, ⟨p, hbody⟩, hcustomer⟩ := hlooked refund hmem
    have horder := hcustomer userId huser
    rw [hbody] at horder
    have hdrafts : drafts customerOf refund.event = refund.drafts := by
      unfold drafts Refund.drafts
      rw [hbody, huser]
      dsimp only
      rw [show customerOf p.orderId = some userId from horder]
    refine .inl ⟨refund.event, hlog, fun e' he' => ⟨fun h => ?_, ?_⟩, rfl, rfl, by rw [hdrafts]⟩
    · unfold Finishes at h
      split at h
      · cases h
      · exact Table.eq_of_key he' hlog (Label.write.inj h).symm
      · exact h.elim
    · rintro rfl
      unfold Finishes
      rw [hbody]
  | markRead recipient id now =>
    cases hs
    refine .inr (.inr ⟨recipient, now, .inl ⟨id, rfl⟩, fun e' _ h => ?_, rfl, rfl, _, ?_, rfl⟩)
    · unfold Finishes at h
      split at h <;> cases h
    · intro row hrow
      simp only [Bool.and_eq_true, decide_eq_true_eq, Option.isNone_iff_eq_none] at hrow
      exact ⟨hrow.1.2, hrow.2⟩
  | markAllRead recipient now =>
    cases hs
    refine .inr (.inr ⟨recipient, now, .inr rfl, fun e' _ h => ?_, rfl, rfl, _, ?_, rfl⟩)
    · unfold Finishes at h
      split at h <;> cases h
    · intro row hrow
      simpa using hrow

/-! ### Each row a fact, each fact a row -/

def Names (uuid5 : String → String) (customerOf : String → Option String) (w : World) (row : Row) :
    Prop :=
  ∃ e ∈ w.handled, ∃ d ∈ drafts customerOf e, row.toFact = factOf uuid5 e d

structure Kept (uuid5 : String → String) (customerOf : String → Option String)
    (log : Table Event EventId Event.id) (w : World) : Prop where
  looked : Looked customerOf log w
  logged : ∀ e ∈ w.handled, e ∈ log
  named : ∀ row ∈ w.notifications, Names uuid5 customerOf w row
  written : ∀ e ∈ w.handled, ∀ d ∈ drafts customerOf e,
    ∃ row ∈ w.notifications, row.id = notificationId uuid5 e.id d.recipient

theorem kept_init : Kept uuid5 customerOf log World.init :=
  ⟨fun _ h => absurd h Table.not_mem_empty, fun _ h => absurd h List.not_mem_nil,
    fun _ h => absurd h Table.not_mem_empty, fun _ h => absurd h List.not_mem_nil⟩

theorem kept_step (hkept : Kept uuid5 customerOf log w)
    (hs : step uuid5 customerOf log w i = some w') : Kept uuid5 customerOf log w' := by
  rcases step_cases hkept.looked hs with ⟨e, hlog, -, hrefunds, hhandled, hrows⟩ |
    ⟨-, hlooked, hhandled, hrows⟩ | ⟨recipient, now, -, -, hrefunds, hhandled, p, -, hrows⟩
  · refine ⟨by unfold Looked; rw [hrefunds]; exact hkept.looked, ?_, ?_, ?_⟩
    · rw [hhandled]
      exact List.forall_mem_cons.mpr ⟨hlog, hkept.logged⟩
    · intro row hrow
      unfold Names
      rw [hhandled]
      rw [hrows] at hrow
      rcases mem_of_mem_mint hrow with hold | ⟨d, hd, rfl⟩
      · obtain ⟨e', he', hfact⟩ := hkept.named row hold
        exact ⟨e', List.mem_cons_of_mem _ he', hfact⟩
      · exact ⟨e, List.mem_cons_self, d, hd, rfl⟩
    · intro e' he' d hd
      rw [hhandled] at he'
      rw [hrows]
      rcases List.mem_cons.mp he' with rfl | he'
      · exact exists_mem_mint hd
      · obtain ⟨row, hrow, hid⟩ := hkept.written e' he' d hd
        exact ⟨row, mem_mint_of_mem hrow, hid⟩
  · refine ⟨hlooked, ?_, ?_, ?_⟩
    · rw [hhandled]
      exact hkept.logged
    · unfold Names
      rw [hhandled, hrows]
      exact hkept.named
    · rw [hhandled, hrows]
      exact hkept.written
  · -- a mark keeps everything that is written once
    have hmark : ∀ x : Row,
        (if p x then { x with readAt := some now } else x).toFact = x.toFact := by
      intro x
      split <;> rfl
    refine ⟨by unfold Looked; rw [hrefunds]; exact hkept.looked, ?_, ?_, ?_⟩
    · rw [hhandled]
      exact hkept.logged
    · intro row hrow
      rw [hrows] at hrow
      obtain ⟨x, hx, rfl⟩ := Table.mem_updateWhere.mp hrow
      unfold Names
      rw [hhandled, hmark]
      exact hkept.named x hx
    · intro e he d hd
      rw [hhandled] at he
      obtain ⟨row, hrow, hid⟩ := hkept.written e he d hd
      refine ⟨_, hrows ▸ Table.mem_updateWhere.mpr ⟨row, hrow, rfl⟩, ?_⟩
      rw [hmark]
      exact hid

theorem kept_of_run (h : Run (step uuid5 customerOf log) Always w is w')
    (hkept : Kept uuid5 customerOf log w) : Kept uuid5 customerOf log w' :=
  h.invariant hkept fun _ _ _ hk _ hs => kept_step hk hs

/-- The events that were handled are those whose notifications the run wrote. -/
theorem mem_handled_iff (h : Run (step uuid5 customerOf log) Always World.init is w) :
    e ∈ w.handled ↔ e ∈ log ∧ ∃ i ∈ is, Finishes i e := by
  induction h with
  | nil => exact ⟨nofun, fun ⟨_, _, hi, _⟩ => absurd hi List.not_mem_nil⟩
  | @snoc is w w' i hrun _ hs ih =>
    have hlooked := (kept_of_run hrun kept_init).looked
    have hmore : (∃ j ∈ is ++ [i], Finishes j e) ↔ (∃ j ∈ is, Finishes j e) ∨ Finishes i e := by
      constructor
      · rintro ⟨j, hj, hfin⟩
        rcases List.mem_append.mp hj with hj | hj
        · exact .inl ⟨j, hj, hfin⟩
        · rw [List.mem_singleton] at hj
          exact .inr (hj ▸ hfin)
      · rintro (⟨j, hj, hfin⟩ | hfin)
        · exact ⟨j, List.mem_append_left _ hj, hfin⟩
        · exact ⟨i, List.mem_append_right _ List.mem_cons_self, hfin⟩
    have hsame : (∀ e' ∈ log, ¬ Finishes i e') → w'.handled = w.handled →
        (e ∈ w'.handled ↔ e ∈ log ∧ ∃ j ∈ is ++ [i], Finishes j e) := by
      intro hno hhandled
      rw [hhandled, hmore, ih]
      refine and_congr_right fun hlog => ?_
      exact (or_iff_left (hno e hlog)).symm
    rcases step_cases hlooked hs with ⟨e', hlog, hfin, -, hhandled, -⟩ | ⟨hno, -, hhandled, -⟩ |
      ⟨_, _, -, hno, -, hhandled, -⟩
    · rw [hhandled, List.mem_cons, hmore, ih]
      constructor
      · rintro (rfl | ⟨hmem, hdone⟩)
        · exact ⟨hlog, .inr ((hfin e hlog).mpr rfl)⟩
        · exact ⟨hmem, .inl hdone⟩
      · rintro ⟨hmem, hdone | hlast⟩
        · exact .inr ⟨hmem, hdone⟩
        · exact .inl ((hfin e hmem).mp hlast)
    · exact hsame hno hhandled
    · exact hsame hno hhandled

/-- Rows under one identifier say the same. -/
theorem fact_of_id (huuid : Function.Injective uuid5) (hkept : Kept uuid5 customerOf log w)
    (hrow : row ∈ w.notifications) (he : e ∈ log) (hd : d ∈ drafts customerOf e)
    (hid : row.id = notificationId uuid5 e.id d.recipient) : row.toFact = factOf uuid5 e d := by
  obtain ⟨e', he', d', hd', hfact⟩ := hkept.named row hrow
  have hid' : row.id = notificationId uuid5 e'.id d'.recipient := congrArg Fact.id hfact
  obtain ⟨hevent, hrecipient⟩ := notificationId_inj huuid (hid'.symm.trans hid)
  obtain rfl : e' = e := Table.eq_of_key (hkept.logged e' he') he hevent
  obtain rfl : d' = d := Draft.recipient_inj hd' hd hrecipient
  exact hfact

/-! ### Marking -/

/-- Rows are still there, and what was read still is. -/
def Aged (t t' : Notifications) : Prop :=
  ∀ row ∈ t, ∃ row' ∈ t', row'.toFact = row.toFact ∧
    ∀ readAt, row.readAt = some readAt → row'.readAt = some readAt

theorem Aged.trans (h : Aged t t') (h' : Aged t' t'') : Aged t t'' := by
  intro row hrow
  obtain ⟨row', hrow', hfact, hread⟩ := h row hrow
  obtain ⟨row'', hrow'', hfact', hread'⟩ := h' row' hrow'
  exact ⟨row'', hrow'', hfact'.trans hfact, fun at_ hat => hread' at_ (hread at_ hat)⟩

/-- **Only its recipient reads a notification**, and only once. -/
theorem marked_of_step (hlooked : Looked customerOf log w)
    (hs : step uuid5 customerOf log w i = some w') (hrow : row ∈ w.notifications) :
    ∃ row' ∈ w'.notifications, row'.toFact = row.toFact ∧ (row'.readAt = row.readAt ∨
      row.readAt = none ∧ ∃ now, row'.readAt = some now ∧ Marks i row.recipient now) := by
  rcases step_cases hlooked hs with ⟨e, -, -, -, -, hrows⟩ | ⟨-, -, -, hrows⟩ |
    ⟨recipient, now, hmarks, -, -, -, p, hp, hrows⟩
  · rw [hrows]
    exact ⟨row, mem_mint_of_mem hrow, rfl, .inl rfl⟩
  · rw [hrows]
    exact ⟨row, hrow, rfl, .inl rfl⟩
  · rw [hrows]
    refine ⟨_, Table.mem_updateWhere.mpr ⟨row, hrow, rfl⟩, ?_⟩
    by_cases hpick : p row
    · obtain ⟨rfl, hunread⟩ := hp row hpick
      rw [if_pos hpick]
      exact ⟨rfl, .inr ⟨hunread, now, rfl, hmarks⟩⟩
    · rw [if_neg hpick]
      exact ⟨rfl, .inl rfl⟩

theorem aged_of_run (h : Run (step uuid5 customerOf log) Always w is w')
    (hkept : Kept uuid5 customerOf log w) : Aged w.notifications w'.notifications := by
  induction h with
  | nil => exact fun row hrow => ⟨row, hrow, rfl, fun _ hat => hat⟩
  | snoc hrun _ hs ih =>
    refine ih.trans fun row hrow => ?_
    obtain ⟨row', hrow', hfact, hread⟩ := marked_of_step (kept_of_run hrun hkept).looked hs hrow
    refine ⟨row', hrow', hfact, fun readAt hat => ?_⟩
    rcases hread with hread | ⟨hunread, -⟩
    · rw [hread, hat]
    · rw [hunread] at hat
      cases hat

/-! ### Reading page by page -/

variable {codec : Codec} {recipient : Recipient} {limit : ℕ} {cursor : Option String}
  {poll : Poll} {items : List Row} {before : Option (ℕ ×ₗ String)}

/-- A cursor that stands for a row, or the beginning. -/
inductive Means (codec : Codec) : Option String → Option (ℕ ×ₗ String) → Prop
  | start : Means codec none none
  | cursor (c : ℕ ×ₗ String) : Means codec (some (codec.encode c)) (some c)

theorem inbox_of_means (h : Means codec cursor before) :
    let page := Paging.page Row.stamp limit before (w.of recipient)
    w.inbox codec recipient limit cursor =
      some ⟨page.items, page.next.map codec.encode, w.unreadCount recipient⟩ := by
  cases h with
  | start => rfl
  | cursor c =>
    unfold World.inbox
    dsimp only
    rw [codec.decode_encode]
    rfl

theorem stamped_of (w : World) : Stamped Row.stamp (w.of recipient) := by
  refine ⟨w.notifications.nodup.filter _, fun x hx y hy h => ?_⟩
  have hid : x.id = y.id := congrArg (fun s => (ofLex s).2) h
  exact Table.eq_of_key (List.mem_of_mem_filter hx) (List.mem_of_mem_filter hy) hid

theorem mem_of : row ∈ w.of recipient ↔ row ∈ w.notifications ∧ row.recipient = recipient := by
  unfold World.of
  rw [List.mem_filter, decide_eq_true_eq]
  rfl

/-- The worlds that a run reaches, so that what a walk sees in each is known. -/
abbrev Inboxes (uuid5 : String → String) (customerOf : String → Option String)
    (log : Table Event EventId Event.id) :=
  { w : World // Kept uuid5 customerOf log w }

abbrev Later (w w' : Inboxes uuid5 customerOf log) : Prop :=
  ∃ is, Run (step uuid5 customerOf log) Always w.1 is w'.1

theorem walk_of_reads (h : Reads uuid5 customerOf log codec recipient limit w cursor items w')
    (hkept : Kept uuid5 customerOf log w) (hmeans : Means codec cursor before) :
    ∃ hkept' : Kept uuid5 customerOf log w',
      Paging.Walk Row.stamp (fun w : Inboxes uuid5 customerOf log => w.1.of recipient) Later limit
        ⟨w, hkept⟩ before items ⟨w', hkept'⟩ := by
  induction h generalizing before with
  | last hpoll hnext =>
    rw [inbox_of_means hmeans] at hpoll
    obtain rfl := Option.some.inj hpoll
    exact ⟨hkept, .last (Option.map_eq_none_iff.mp hnext)⟩
  | more hpoll hnext hrun _ ih =>
    rw [inbox_of_means hmeans] at hpoll
    obtain rfl := Option.some.inj hpoll
    obtain ⟨c, hpage, rfl⟩ := Option.map_eq_some_iff.mp hnext
    obtain ⟨hkept', hwalk⟩ := ih (kept_of_run hrun hkept) (.cursor c)
    exact ⟨hkept', .more hpage ⟨_, hrun⟩ hwalk⟩

theorem reads_of_walk {s s' : World}
    (h : Paging.Walk Row.stamp (fun w : World => w.of recipient) Eq limit s before items s')
    (hmeans : Means codec cursor before) :
    Reads uuid5 customerOf log codec recipient limit s cursor items s' := by
  induction h generalizing cursor with
  | last hnext =>
    exact .last (inbox_of_means hmeans) (Option.map_eq_none_iff.mpr hnext)
  | @more s s' s'' before c rest hnext hs _ ih =>
    subst hs
    exact .more (inbox_of_means hmeans) (Option.map_eq_some_iff.mpr ⟨c, hnext, rfl⟩) .nil
      (ih (.cursor c))

/-- **Reading page by page**, while the inbox goes on: each row that was there is read, once. -/
theorem once_of_reads (huuid : Function.Injective uuid5) (hkept : Kept uuid5 customerOf log w)
    (hlimit : 0 < limit) (h : Reads uuid5 customerOf log codec recipient limit w none items w') :
    items.Pairwise (fun x y => y.stamp < x.stamp) ∧
      (∀ row ∈ items, row.recipient = recipient) ∧
      ∀ row ∈ w.notifications, row.recipient = recipient →
        ∃ got ∈ items, got.toFact = row.toFact ∧ ∀ got' ∈ items, got'.id = row.id → got' = got := by
  obtain ⟨hkept', hwalk⟩ := walk_of_reads h hkept .start
  have hstamped : ∀ s : Inboxes uuid5 customerOf log,
      Stamped Row.stamp (s.1.of recipient) := fun s => stamped_of s.1
  have hdown := Paging.pairwise_walk hwalk hstamped
  have hnodup : (items.map Row.stamp).Nodup :=
    List.pairwise_map.mpr (hdown.imp fun hlt => hlt.ne')
  refine ⟨hdown, Paging.exists_mem_of_mem_walk hwalk fun s x hx => (mem_of.mp hx).2,
    fun row hrow hmine => ?_⟩
  obtain ⟨e, he, d, hd, hfact⟩ := hkept.named row hrow
  have hlog := hkept.logged e he
  have hid : row.id = notificationId uuid5 e.id d.recipient := congrArg Fact.id hfact
  -- whatever is read under the identifier says the same
  have hsame : ∀ got ∈ items, got.id = row.id → got.toFact = row.toFact := by
    refine Paging.exists_mem_of_mem_walk hwalk fun s x hx hx' => ?_
    rw [fact_of_id huuid s.2 (mem_of.mp hx).1 hlog hd (hx'.trans hid), hfact]
  have hkeep : ∀ s s' : Inboxes uuid5 customerOf log, Later s s' → ∀ x ∈ s.1.of recipient,
      ∃ y ∈ s'.1.of recipient, y.stamp = x.stamp := by
    rintro s s' ⟨is, hrun⟩ x hx
    obtain ⟨hmem, hx⟩ := mem_of.mp hx
    obtain ⟨y, hy, hfact', -⟩ := aged_of_run hrun s.2 x hmem
    refine ⟨y, mem_of.mpr ⟨hy, (congrArg Fact.recipient hfact').trans hx⟩, ?_⟩
    exact congrArg (fun f : Fact => toLex (f.createdAt, f.id)) hfact'
  obtain ⟨got, hgot, hstamp⟩ := Paging.mem_walk hwalk hstamped hlimit hkeep
    (Paging.mem_below.mpr ⟨mem_of.mpr ⟨hrow, hmine⟩, nofun⟩)
  have hgotId : got.id = row.id := congrArg (fun s => (ofLex s).2) hstamp
  refine ⟨got, hgot, hsame got hgot hgotId, fun got' hgot' hgotId' => ?_⟩
  refine List.inj_on_of_nodup_map hnodup hgot' hgot ?_
  have hfacts := (hsame got' hgot' hgotId').trans (hsame got hgot hgotId).symm
  exact congrArg (fun f : Fact => toLex (f.createdAt, f.id)) hfacts

/-! ### Runs -/

/-- **The inbox holds each fact once.**  After any run, whatever was delivered again and in
whatever order: a row for each event whose notifications were written and each recipient of it,
and no other; what was read stays read, and only its recipient reads it; what is unread is counted;
and pages that are read one after another, while all this goes on, show each row once and the
newest first. -/
theorem inbox_of_run (huuid : Function.Injective uuid5)
    (h : Run (step uuid5 customerOf log) Always World.init is w) :
    (∀ row ∈ w.notifications, ∃ e ∈ log, (∃ i ∈ is, Finishes i e) ∧
      ∃ d ∈ drafts customerOf e, row.toFact = factOf uuid5 e d) ∧
    (∀ e ∈ log, (∃ i ∈ is, Finishes i e) → ∀ d ∈ drafts customerOf e,
      ∃! row, row ∈ w.notifications ∧ row.toFact = factOf uuid5 e d) ∧
    (∀ e ∈ log, ∀ e' ∈ log, ∀ d ∈ drafts customerOf e, ∀ d' ∈ drafts customerOf e',
      (factOf uuid5 e d).id = (factOf uuid5 e' d').id → e = e' ∧ d = d') ∧
    (∀ js w', Run (step uuid5 customerOf log) Always w js w' →
      ∀ row ∈ w.notifications, ∃ row' ∈ w'.notifications, row'.toFact = row.toFact ∧
        ∀ readAt, row.readAt = some readAt → row'.readAt = some readAt) ∧
    (∀ i w', step uuid5 customerOf log w i = some w' → ∀ row ∈ w.notifications,
      ∀ row' ∈ w'.notifications, row'.id = row.id → row'.readAt ≠ row.readAt →
        row.readAt = none ∧ ∃ now, row'.readAt = some now ∧ Marks i row.recipient now) ∧
    (∀ recipient, w.unreadCount recipient =
      ((w.of recipient).filter fun row => row.readAt = none).length) ∧
    ∀ (codec : Codec) (recipient : Recipient) (limit : ℕ), 0 < limit →
      (∃ items, Reads uuid5 customerOf log codec recipient limit w none items w) ∧
      ∀ items w', Reads uuid5 customerOf log codec recipient limit w none items w' →
        items.Pairwise (fun x y => y.stamp < x.stamp) ∧
        (∀ row ∈ items, row.recipient = recipient) ∧
        ∀ row ∈ w.notifications, row.recipient = recipient →
          ∃ got ∈ items, got.toFact = row.toFact ∧
            ∀ got' ∈ items, got'.id = row.id → got' = got := by
  have hkept := kept_of_run h kept_init
  refine ⟨fun row hrow => ?_, fun e hlog hdone d hd => ?_, fun e he e' he' d hd d' hd' hid => ?_,
    fun js w' hrun => aged_of_run hrun hkept, fun i w' hs row hrow row' hrow' hid hne => ?_,
    fun recipient => ?_, fun codec recipient limit hlimit => ⟨?_, fun items w' hreads =>
      once_of_reads huuid hkept hlimit hreads⟩⟩
  · obtain ⟨e, he, hnames⟩ := hkept.named row hrow
    obtain ⟨hlog, hdone⟩ := (mem_handled_iff h).mp he
    exact ⟨e, hlog, hdone, hnames⟩
  · obtain ⟨row, hrow, hid⟩ := hkept.written e ((mem_handled_iff h).mpr ⟨hlog, hdone⟩) d hd
    have hfact := fact_of_id huuid hkept hrow hlog hd hid
    refine ⟨row, ⟨hrow, hfact⟩, fun row' ⟨hrow', hfact'⟩ => ?_⟩
    exact Table.eq_of_key hrow' hrow ((congrArg Fact.id hfact').trans (congrArg Fact.id hfact).symm)
  · obtain ⟨hevent, hrecipient⟩ := notificationId_inj huuid hid
    obtain rfl : e = e' := Table.eq_of_key he he' hevent
    exact ⟨rfl, Draft.recipient_inj hd hd' hrecipient⟩
  · obtain ⟨x, hx, hfact, hread⟩ := marked_of_step hkept.looked hs hrow
    obtain rfl : row' = x :=
      Table.eq_of_key hrow' hx (hid.trans (congrArg Fact.id hfact).symm)
    exact hread.resolve_left hne
  · unfold World.unreadCount World.of
    rw [List.filter_filter, List.countP_eq_length_filter]
    refine congrArg List.length (List.filter_congr fun row _ => ?_)
    cases row.readAt <;> simp [Bool.and_comm]
  · have hends : ∃ items, Paging.Walk Row.stamp (fun w : World => w.of recipient) Eq limit w none
        items w :=
      Paging.exists_walk stamped_of hlimit rfl none
    obtain ⟨items, hwalk⟩ := hends
    exact ⟨items, reads_of_walk hwalk .start⟩

end

/-- An order that was confirmed, and a refund of it, each delivered twice. -/
theorem inbox_refunded :
    let confirmed : Event := ⟨⟨"e1", by decide⟩, 1, .order .orderConfirmed
      ⟨"o1", "u1", "r1", "Thai", some "b1", ["soup"], ⟨900, "USD"⟩, none⟩⟩
    let refunded : Event := ⟨⟨"e2", by decide⟩, 2, .payment .refundProcessed ⟨"o1", 900, "USD"⟩⟩
    let log : Table Event EventId Event.id := ⟨[confirmed, refunded], by decide⟩
    let customerOf : String → Option String := fun _ => some "u1"
    ∃ w, Run (step (fun s => s) customerOf log) Always World.init
        [.deliver confirmed, .deliver refunded, .fetch refunded.id, .deliver confirmed,
          .write refunded.id, .markAllRead ⟨.customer, "u1"⟩ 3, .deliver refunded,
          .write refunded.id] w ∧
      w.notifications.rows.length = 3 ∧
      ∀ d ∈ drafts customerOf refunded,
        ∃! row, row ∈ w.notifications ∧ row.toFact = factOf (fun s => s) refunded d := by
  intro confirmed refunded log customerOf
  obtain ⟨w, hrun, hlen⟩ : ∃ w, Run (step (fun s => s) customerOf log) Always World.init
      [.deliver confirmed, .deliver refunded, .fetch refunded.id, .deliver confirmed,
        .write refunded.id, .markAllRead ⟨.customer, "u1"⟩ 3, .deliver refunded,
        .write refunded.id] w ∧ (w.notifications.rows.length == 3) = true :=
    exists_run_of_execOk (by decide +kernel)
  obtain ⟨-, hrows, -⟩ := inbox_of_run Function.injective_id hrun
  have hrefund := hrows refunded (by decide) ⟨.write refunded.id, by simp, rfl⟩
  exact ⟨w, hrun, by simpa using hlen, hrefund⟩

end Notification
