/-
What holds of every mutation in progress, and of the committed tables.

* `Tx.Typed`, `Sound`, `sound_of_run` — in any interleaving, the committed rows are typed
  and meet the constraints, and each mutation writes only rows of its restaurant;
* `Tx.Replays` — a publication got its answers from the committed tables as they are now;
* `Undisturbing` — a commit changes no answer of another publication, and then those still
  replay (`replays_step`).
-/
import SmartFoodOps.Catalog.Publishing

open Keyed Program Machine

namespace Catalog

variable {n : ℕ} {zone : String} {purposeOf : ℕ → Purpose}

/-! ### Typed mutations -/

section

variable (purposeOf : ℕ → Purpose)

/-- Its writes are typed, and local to what it will have announced. -/
def Tx.Typed : Tx → Prop
  | idle | invalidating _ => True
  | editing p edits => (∀ w ∈ edits, w.Typed purposeOf) ∧
    Ensures (Drawn purposeOf) (Db.Typed purposeOf) (Write.Typed purposeOf) p
      (fun t ws => ∀ target ∈ t, ∀ w ∈ ws, w.Local purposeOf target.restaurant) edits
  | publishing target edits p staged _ =>
    (∀ w ∈ edits, w.Typed purposeOf) ∧ (∀ w ∈ edits, w.Local purposeOf target.restaurant) ∧
      (∀ w ∈ staged, w.Typed purposeOf) ∧
        Ensures (Drawn purposeOf) (Db.Typed purposeOf) (Write.Typed purposeOf) p
          (fun _ ws => ∀ w ∈ ws, w.Quiet) staged

/-- The committed rows are typed and valid, and so will they be after each commit. -/
structure Sound (s : System n) : Prop where
  typed : s.db.Typed purposeOf
  valid : s.db.Valid
  txs : ∀ pid, (s.txs pid).Typed purposeOf

/-- A publication got its answers from these committed tables. -/
def Tx.Replays (db : Db) : Tx → Prop
  | publishing target edits p staged facts =>
    Replay Write.apply (Drawn purposeOf) (applyWrites edits db)
      (publish target.restaurant target.event) facts p staged
  | _ => True

end

theorem forall_set_of_ne {P : Tx → Prop} {s : System n} {pid : Fin n} {tx : Tx}
    (h : ∀ q, q ≠ pid → P (s.txs q)) (htx : P tx) (q : Fin n) : P ((s.set pid tx).txs q) := by
  show P (Function.update s.txs pid tx q)
  rw [Function.update_apply]
  split
  · exact htx
  · next hq => exact h q hq

theorem forall_set {P : Tx → Prop} {s : System n} {pid : Fin n} {tx : Tx}
    (h : ∀ q, P (s.txs q)) (htx : P tx) (q : Fin n) : P ((s.set pid tx).txs q) :=
  forall_set_of_ne (fun q _ => h q) htx q

theorem Sound.set {s : System n} {pid : Fin n} {tx : Tx} (h : Sound purposeOf s)
    (htx : tx.Typed purposeOf) : Sound purposeOf (s.set pid tx) :=
  ⟨h.typed, h.valid, forall_set h.txs htx⟩

theorem sound_empty : Sound purposeOf (System.empty : System n) where
  typed _ h := absurd h List.not_mem_nil
  valid := ⟨fun _ h => absurd h List.not_mem_nil, fun _ h => absurd h List.not_mem_nil⟩
  txs _ := trivial

theorem forall_append {L : Write → Prop} {ws ws' : List Write} (h : ∀ w ∈ ws, L w)
    (h' : ∀ w ∈ ws', L w) : ∀ w ∈ ws ++ ws', L w :=
  fun w hw => (List.mem_append.mp hw).elim (h w) (h' w)

theorem sound_step {s u : System n} {e : Event n} (hs : Sound purposeOf s)
    (h : step zone purposeOf s e = some u) : Sound purposeOf u := by
  cases step_cases zone purposeOf h with
  | start hidle =>
    exact hs.set ⟨List.forall_mem_nil _, (body_local zone _).mono fun _ _ hq target ht =>
      (hq target ht).2⟩
  | ends => exact hs.set trivial
  | @publishes pid _ target edits htx =>
    have ht := hs.txs pid
    rw [htx] at ht
    have hquiet : Within purposeOf Write.Quiet (publish target.restaurant target.event) _ :=
      within_publish target.restaurant target.event
    exact hs.set ⟨ht.1, ht.2 target rfl, List.forall_mem_nil _,
      ((hquiet [] (List.forall_mem_nil _)).weaken fun _ hw => hw.1).mono fun _ _ hq => hq.2⟩
  | @edits pid _ p p' edits w facts htx ha =>
    have ht := hs.txs pid
    rw [htx] at ht
    obtain ⟨hw, hp'⟩ := ht.2.advance (typed_applyWrites ht.1 hs.typed) ha
    exact hs.set ⟨forall_append ht.1 hw, hp'⟩
  | @stages pid _ target edits staged w p p' facts facts' htx ha =>
    have ht := hs.txs pid
    rw [htx] at ht
    obtain ⟨hedits, hlocal, hstaged, hp⟩ := ht
    obtain ⟨hw, hp'⟩ := hp.advance
      (typed_applyWrites hstaged (typed_applyWrites hedits hs.typed)) ha
    exact hs.set ⟨hedits, hlocal, forall_append hstaged hw, hp'⟩
  | @commits pid _ target edits staged affected facts htx hvalid =>
    have ht := hs.txs pid
    rw [htx] at ht
    obtain ⟨hedits, -, hstaged, -⟩ := ht
    exact ⟨typed_applyWrites (forall_append hedits hstaged) hs.typed, hvalid,
      forall_set hs.txs trivial⟩
  | invalidates => exact ⟨hs.typed, hs.valid, forall_set hs.txs trivial⟩
  | getMenu => exact ⟨hs.typed, hs.valid, hs.txs⟩

/-- **In every interleaving, the committed rows are typed and valid.** -/
theorem sound_of_run {ok : System n → Event n → Prop} {es : List (Event n)} {s : System n}
    (h : Run (step zone purposeOf) ok .empty es s) : Sound purposeOf s :=
  h.invariant (I := Sound purposeOf) sound_empty fun _ _ _ hs _ hstep => sound_step hs hstep

/-! ### Undisturbed publications -/

/-- The publication would get the same answers from these committed tables. -/
def Tx.Unmoved (db : Db) : Tx → Prop
  | publishing _ edits _ _ facts => ∀ f ∈ facts, f (applyWrites edits db)
  | _ => True

instance (db : Db) (tx : Tx) : Decidable (tx.Unmoved db) := by
  unfold Tx.Unmoved
  split <;> infer_instance

/-- The edits and the staged writes that a mutation is about to commit. -/
def Tx.committing : Tx → Option (List Write × List Write)
  | publishing _ edits (.ret _) staged _ => some (edits, staged)
  | _ => none

/-- The next statement of `pid`, if it is a commit, changes no answer that another
publication has got. -/
def Undisturbing (s : System n) (pid : Fin n) : Prop :=
  ∀ ws ∈ (s.txs pid).committing, ∀ q, q ≠ pid →
    (s.txs q).Unmoved (applyWrites (ws.1 ++ ws.2) s.db)

instance (s : System n) (pid : Fin n) : Decidable (Undisturbing s pid) :=
  inferInstanceAs (Decidable (∀ ws ∈ (s.txs pid).committing, ∀ q, q ≠ pid → Tx.Unmoved _ _))

theorem Tx.Replays.moved {tx : Tx} {db db' : Db} (h : tx.Replays purposeOf db)
    (hmoved : tx.Unmoved db') : tx.Replays purposeOf db' := by
  cases tx with
  | publishing target edits p staged facts => exact Replay.moved h hmoved
  | _ => trivial

theorem replays_step {s u : System n} {e : Event n} (hs : ∀ pid, (s.txs pid).Replays purposeOf s.db)
    (hok : ∀ pid drawn, e = .run pid drawn → Undisturbing s pid)
    (h : step zone purposeOf s e = some u) : ∀ pid, (u.txs pid).Replays purposeOf u.db := by
  cases step_cases zone purposeOf h with
  | start hidle => exact forall_set hs trivial
  | ends => exact forall_set hs trivial
  | publishes htx => exact forall_set hs .start
  | edits htx ha => exact forall_set hs trivial
  | @stages pid _ target edits staged w p p' facts facts' htx ha =>
    have ht := hs pid
    rw [htx] at ht
    exact forall_set hs (Replay.advance ht ha)
  | @commits pid _ target edits staged affected facts htx hvalid =>
    refine forall_set_of_ne (fun q hq => ?_) trivial
    exact (hs q).moved (hok pid _ rfl (edits, staged) (by rw [htx]; rfl) q hq)
  | invalidates => exact forall_set hs trivial
  | getMenu => exact hs

/-! ### Commits -/

/-- What a commit does to the committed tables, when the publication replays. -/
structure Committed (purposeOf : ℕ → Purpose) (db : Db) (target : Target)
    (edits staged : List Write) (affected : List RestaurantId) (R : Restaurant)
    (es : List OutboxRow) : Prop where
  read : (applyWrites edits db).read target.restaurant = some R
  affected_eq : affected = fanOut (applyWrites edits db) R
  events : Events (applyWrites edits db) affected staged es
  typed : (applyWrites edits db).Typed purposeOf
  /-- The documents are those after the edits. -/
  document : ∀ o, (applyWrites (edits ++ staged) db).read o = (applyWrites edits db).read o ∧
    ∀ R', (applyWrites (edits ++ staged) db).menu R' = (applyWrites edits db).menu R'
  outside : ∀ o, o ∉ affected →
    (∃ R', (applyWrites edits db).read o = some R') ∨ (∃ R', db.read o = some R') →
      (applyWrites edits db).read o = db.read o ∧
        ∀ R', db.read o = some R' → (applyWrites edits db).menu R' = db.menu R'
  outbox : ∀ e, Row.outbox e ∈ applyWrites (edits ++ staged) db ↔ e ∈ es ∨ Row.outbox e ∈ db

/-- Events are nobody's rows, so edits leave them. -/
theorem outbox_of_local {r : RestaurantId} {edits : List Write} {db : Db} {e : OutboxRow}
    (h : ∀ w ∈ edits, w.Local purposeOf r) :
    Row.outbox e ∈ applyWrites edits db ↔ Row.outbox e ∈ db := by
  refine mem_applyWrites fun w hw db => mem_apply_of_ne fun hk => ?_
  obtain ⟨o, ho, -⟩ := h w hw
  rw [← hk] at ho
  cases ho

/-- **A commit of a publication that replays.** -/
theorem committed {s : System n} {pid : Fin n} {target : Target} {edits staged : List Write}
    {affected : List RestaurantId} {facts : List (Db → Bool)} (hs : Sound purposeOf s)
    (hr : (s.txs pid).Replays purposeOf s.db)
    (htx : s.txs pid = .publishing target edits (.ret affected) staged facts) :
    ∃ R es, Committed purposeOf s.db target edits staged affected R es := by
  have ht := hs.txs pid
  rw [htx] at ht hr
  obtain ⟨hedits, hlocal, -, -⟩ := ht
  have htyped := typed_applyWrites hedits hs.typed
  obtain ⟨R, es, hR, haffected, hevents⟩ := alone_publish htyped (Replay.outcome hr)
  refine ⟨R, es, hR, haffected, hevents, htyped, fun o => ?_, fun o ho hex => ?_, fun e => ?_⟩
  · rw [applyWrites_append]
    exact ⟨(document_quiet htyped hevents.staged.quiet o R).1, fun R' =>
      (document_quiet htyped hevents.staged.quiet o R').2⟩
  · rw [haffected] at ho
    exact unaffected hs.typed hedits hlocal hR ho hex
  · rw [applyWrites_append]
    exact (hevents.staged.outbox e).trans (or_congr_right (outbox_of_local hlocal))

/-! ### A schedule -/

def demoPurposes : ℕ → Purpose
  | 1 => .brand
  | 2 => .branch 1
  | 3 => .category 2
  | 4 => .item 2
  | 5 => .group 4
  | 6 => .option 5
  | _ => .event

/-- Statements of `pid` that draw nothing, or 0. -/
def runs (pid : Fin n) (k : ℕ) : List (Event n) := List.replicate k (.run pid 0)

/-- Brand 1 with its first branch 2 is created. -/
def creation (pid : Fin n) : List (Event n) :=
  .start pid (.createRestaurant "owner" "Diner" ⟨"Pune", none, none, none⟩ [] none none) ::
    runs pid 1 ++ [.run pid 1] ++ runs pid 3 ++ [.run pid 2] ++ runs pid 11 ++ [.run pid 10] ++
      runs pid 8 ++ [.run pid 11] ++ runs pid 3

/-- Branch 2 is paused, up to its commit. -/
def pausing (pid : Fin n) : List (Event n) :=
  .start pid (.setStatus 2 .paused) :: runs pid 6 ++ [.run pid 1] ++ runs pid 4 ++ [.run pid 12]

end Catalog
