/-
The compacted catalog topic as a backup of the catalog.

Compaction keeps, for each restaurant, the outbox row that is greatest by
(occurred_at, id).

* `BackedUp` — that row carries the restaurant's profile and menu;
* `Orderly` — a commit changes no answer of another publication, and its events are later
  than all committed ones, or change nothing;
* `backup_of_run` — if all commits are orderly, every restaurant is backed up;
* `lostPause` — a run in which a pause is lost: the menu edit that commits last took its
  snapshot before the pause was committed.
-/
import SmartFoodOps.Catalog.Commits
import Mathlib.Data.Prod.Lex
import Mathlib.Data.Finset.Max

open Keyed Program Machine

namespace Catalog

variable {n : ℕ} {zone : String} {purposeOf : ℕ → Purpose}

/-- What compaction orders by. -/
def OutboxRow.stamp (e : OutboxRow) : ℕ ×ₗ ℕ := toLex (e.occurredAt, e.id)

/-- Compaction keeps this event of its restaurant. -/
def Kept (db : Db) (e : OutboxRow) : Prop :=
  ∀ e' ∈ db.outbox, e'.aggregateId = e.aggregateId → e'.stamp ≤ e.stamp

/-- The event that compaction keeps carries the profile and the menu. -/
def BackedUp (db : Db) (r : RestaurantId) : Prop :=
  ∀ R ∈ db.read r, ∃ e ∈ db.outbox, e.aggregateId = r ∧ Kept db e ∧ e.profile = R.profile ∧
    e.menu = db.menu R

instance (db : Db) (e : OutboxRow) : Decidable (Kept db e) :=
  inferInstanceAs (Decidable (∀ e' ∈ db.outbox, _ → _))

instance (db : Db) (r : RestaurantId) : Decidable (BackedUp db r) :=
  inferInstanceAs (Decidable (∀ R ∈ db.read r, _))

/-- The restaurant's profile and menu are the same in both. -/
def SameDocument (db db' : Db) (r : RestaurantId) : Prop :=
  db'.read r = db.read r ∧ ∀ R ∈ db.read r, db'.menu R = db.menu R

instance (db db' : Db) (r : RestaurantId) : Decidable (SameDocument db db' r) :=
  inferInstanceAs (Decidable (_ ∧ ∀ R ∈ db.read r, _))

/-- The next statement of `pid`, if it is a commit, stages events that are later than all
committed events of their restaurants, or whose restaurants' documents it does not change. -/
def InOrder (s : System n) (pid : Fin n) : Prop :=
  ∀ ws ∈ (s.txs pid).committing, ∀ e ∈ ws.2.filterMap Write.event,
    (∀ e' ∈ s.db.outbox, e'.aggregateId = e.aggregateId → e'.stamp < e.stamp) ∨
      SameDocument s.db (applyWrites ws.1 s.db) e.aggregateId

instance (s : System n) (pid : Fin n) : Decidable (InOrder s pid) :=
  inferInstanceAs (Decidable (∀ ws ∈ (s.txs pid).committing, ∀ e ∈ _, _))

/-- The condition on each step. -/
def Orderly (s : System n) : Event n → Prop
  | .run pid _ => Undisturbing s pid ∧ InOrder s pid
  | _ => True

instance (s : System n) (e : Event n) : Decidable (Orderly s e) := by
  unfold Orderly
  split <;> infer_instance

/-! ### The event that compaction keeps -/

theorem mem_outbox {db : Db} {e : OutboxRow} : e ∈ db.outbox ↔ .outbox e ∈ db := by
  simp only [Db.outbox, List.mem_filterMap, Row.asOutbox_eq_some]
  exact exists_eq_right

theorem exists_kept {db : Db} {e : OutboxRow} (he : e ∈ db.outbox) :
    ∃ e' ∈ db.outbox, e'.aggregateId = e.aggregateId ∧ Kept db e' := by
  have hmem : ∀ x, x ∈ (db.outbox.filter fun x => x.aggregateId = e.aggregateId).toFinset ↔
      x ∈ db.outbox ∧ x.aggregateId = e.aggregateId := by simp
  obtain ⟨e', he', hmax⟩ := Finset.exists_max_image _ OutboxRow.stamp ⟨e, (hmem e).mpr ⟨he, rfl⟩⟩
  obtain ⟨hin, hid⟩ := (hmem e').mp he'
  exact ⟨e', hin, hid, fun x hx hxe => hmax x ((hmem x).mpr ⟨hx, hxe.trans hid⟩)⟩

/-- It is one event. -/
theorem Kept.unique {db : Db} {e e' : OutboxRow} (he : e ∈ db.outbox) (he' : e' ∈ db.outbox)
    (hk : Kept db e) (hk' : Kept db e') (hid : e.aggregateId = e'.aggregateId) : e = e' := by
  have hstamp : e.stamp = e'.stamp := le_antisymm (hk' e he hid) (hk e' he' hid.symm)
  have hkey : e.id = e'.id := congrArg (fun x => (ofLex x).2) hstamp
  have hrow := db.eq_of_key (mem_outbox.mp he) (mem_outbox.mp he') (congrArg Key.outbox hkey)
  exact Row.outbox.inj hrow

/-! ### One commit -/

section

variable {db : Db} {target : Target} {edits staged : List Write} {affected : List RestaurantId}
  {R : Restaurant} {es : List OutboxRow}
  (hc : Committed purposeOf db target edits staged affected R es)

include hc

/-- Nothing was staged for a restaurant outside the fan-out. -/
theorem backedUp_outside {r : RestaurantId} (hr : r ∉ affected) (h : BackedUp db r) :
    BackedUp (applyWrites (edits ++ staged) db) r := by
  intro R' hR'
  obtain ⟨hread, hmenu⟩ := hc.document r
  rw [Option.mem_def, hread] at hR'
  obtain ⟨hread', hmenu'⟩ := hc.outside r hr (.inl ⟨R', hR'⟩)
  rw [hread'] at hR'
  obtain ⟨e, he, hid, hk, hprofile, hm⟩ := h R' hR'
  refine ⟨e, mem_outbox.mpr ((hc.outbox e).mpr (.inr (mem_outbox.mp he))), hid, ?_, hprofile, ?_⟩
  · intro e' he' hid'
    rcases (hc.outbox e').mp (mem_outbox.mp he') with hnew | hold
    · exact absurd ((hid'.trans hid) ▸ (hc.events.carries e' hnew).1) hr
    · exact hk e' (mem_outbox.mpr hold) hid'
  · rw [hm, hmenu R', hmenu' R' hR']

/-- The event that is kept for a restaurant of the fan-out carries its document. -/
theorem backedUp_inside {r : RestaurantId} (hr : r ∈ affected) (h : BackedUp db r)
    (horder : ∀ e ∈ es,
      (∀ e' ∈ db.outbox, e'.aggregateId = e.aggregateId → e'.stamp < e.stamp) ∨
        SameDocument db (applyWrites edits db) e.aggregateId) :
    BackedUp (applyWrites (edits ++ staged) db) r := by
  intro R' hR'
  obtain ⟨hread, hmenu⟩ := hc.document r
  rw [Option.mem_def, hread] at hR'
  obtain ⟨e₀, he₀, hid₀⟩ := hc.events.complete r hr
  have hmem : ∀ e, e ∈ (applyWrites (edits ++ staged) db).outbox ↔ e ∈ es ∨ e ∈ db.outbox :=
    fun e => mem_outbox.trans ((hc.outbox e).trans (or_congr_right mem_outbox.symm))
  obtain ⟨e, he, hid, hk⟩ := exists_kept ((hmem e₀).mpr (.inl he₀))
  rw [hid₀] at hid
  refine ⟨e, he, hid, hk, ?_⟩
  rw [hmenu R']
  rcases (hmem e).mp he with hnew | hold
  · -- one of the new events: it carries the document after the edits
    obtain ⟨R'', hR'', hprofile, hm⟩ := (hc.events.carries e hnew).2
    rw [hid, hR'] at hR''
    cases hR''
    exact ⟨hprofile, hm⟩
  · rcases horder e₀ he₀ with hlater | hsame
    · have hlt := hlater e hold (hid.trans hid₀.symm)
      have hle := hk e₀ ((hmem e₀).mpr (.inl he₀)) (hid₀.trans hid.symm)
      exact absurd hlt (not_lt.mpr hle)
    · -- an old one: it was kept before, and the document is the same
      rw [hid₀] at hsame
      obtain ⟨hread', hmenu'⟩ := hsame
      rw [hread'] at hR'
      obtain ⟨e₁, he₁, hid₁, hk₁, hprofile, hm⟩ := h R' hR'
      have hk' : Kept db e := fun e' he' hid' => hk e' ((hmem e').mpr (.inr he')) hid'
      obtain rfl := hk'.unique hold he₁ hk₁ (hid.trans hid₁.symm)
      exact ⟨hprofile, by rw [hm, hmenu' R' hR']⟩

end

/-! ### Runs -/

/-- What orderly commits keep. -/
structure Backup (purposeOf : ℕ → Purpose) (s : System n) : Prop where
  sound : Sound purposeOf s
  replays : ∀ pid, (s.txs pid).Replays purposeOf s.db
  backedUp : ∀ r, BackedUp s.db r

theorem backup_step {s u : System n} {e : Event n} (hs : Backup purposeOf s) (hok : Orderly s e)
    (h : step zone purposeOf s e = some u) : Backup purposeOf u := by
  refine ⟨sound_step hs.sound h, replays_step hs.replays ?_ h, ?_⟩
  · rintro pid drawn rfl
    exact hok.1
  cases step_cases zone purposeOf h with
  | @commits pid _ target edits staged affected facts htx hvalid =>
    obtain ⟨R, es, hc⟩ := committed hs.sound (hs.replays pid) htx
    intro r
    by_cases hr : r ∈ affected
    · refine backedUp_inside hc hr (hs.backedUp r) fun e he => ?_
      refine hok.2 (edits, staged) (by rw [htx]; rfl) e ?_
      rw [hc.events.staged.events_eq]
      exact he
    · exact backedUp_outside hc hr (hs.backedUp r)
  | _ => exact hs.backedUp

/-- **If every commit is orderly, the compacted topic is a backup.** -/
theorem backup_of_run {es : List (Event n)} {s : System n}
    (h : Run (step zone purposeOf) Orderly .empty es s) (r : RestaurantId) : BackedUp s.db r := by
  have h0 : Backup purposeOf (System.empty : System n) :=
    ⟨sound_empty, fun _ => trivial, fun r R hR => by cases hR⟩
  exact (h.invariant (I := Backup purposeOf) h0 fun _ _ _ hs hok hstep =>
    backup_step hs hok hstep).backedUp r

/-- Somebody has begun to add a category when branch 2 is paused, and publishes after that. -/
def pauseBetween : List (Event 2) :=
  creation p₀ ++ [.start p₁ (.addCategory 2 "Soups" 0)] ++ runs p₁ 1 ++ [.run p₁ 3] ++ pausing p₀ ++
    runs p₀ 4 ++ runs p₁ 4 ++ [.run p₁ 2] ++ runs p₁ 4 ++ [.run p₁ 13] ++ runs p₁ 4

theorem backup_of_pauseBetween : ∃ s : System 2,
    Run (step "UTC" demoPurposes) Orderly .empty pauseBetween s ∧ s.Idle ∧
      (s.db.read 2).bind (·.status) = some .paused ∧ s.db.outbox.length = 4 ∧ BackedUp s.db 2 := by
  obtain ⟨s, hrun, hp⟩ : ∃ s : System 2, Run (step "UTC" demoPurposes) Orderly .empty
      pauseBetween s ∧ decide (s.Idle ∧ (s.db.read 2).bind (·.status) = some .paused ∧
        s.db.outbox.length = 4) = true :=
    exists_run_of_execOk (by decide +kernel)
  obtain ⟨hidle, hpaused, hevents⟩ := of_decide_eq_true hp
  exact ⟨s, hrun, hidle, hpaused, hevents, backup_of_run hrun 2⟩

/-- Branch 2 is paused while somebody adds a category: the snapshot for the category is
taken before the pause commits, its touch waits, and its event is the last one. -/
def lostPause : List (Event 2) :=
  creation p₀ ++ pausing p₀ ++ runs p₀ 1 ++ [.start p₁ (.addCategory 2 "Soups" 0)] ++ runs p₁ 1 ++
    [.run p₁ 3] ++ runs p₁ 4 ++ [.run p₁ 2] ++ runs p₁ 3 ++ runs p₀ 3 ++ runs p₁ 1 ++ [.run p₁ 13] ++
      runs p₁ 4

/-- **The compacted topic can lose a committed change.** -/
theorem pause_lost : ¬ ∀ (n : ℕ) (zone : String) (purposeOf : ℕ → Purpose) (es : List (Event n))
    (s : System n), Run (step zone purposeOf) Always .empty es s → s.Idle →
      ∀ r, BackedUp s.db r := by
  intro h
  obtain ⟨s, hrun, hp⟩ : ∃ s : System 2, Run (step "UTC" demoPurposes) Always .empty
      lostPause s ∧ decide (s.Idle ∧ ¬ BackedUp s.db 2) = true := exists_run_of_execOk (by decide)
  obtain ⟨hidle, hlost⟩ := of_decide_eq_true hp
  exact hlost (h 2 _ _ _ s hrun hidle 2)

end Catalog
