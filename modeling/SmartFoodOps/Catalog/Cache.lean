/-
The menu cache is coherent as long as nothing overlaps.

* `Sequential` — a mutation starts, and a `get_menu` runs, when no mutation is in progress;
* `document_of_commit` — a commit changes no document outside its fan-out, and the
  documents in the fan-out of a new restaurant are new;
* `Coherent`, `coherent_step` — a cached document is the rendered one, or its key is about
  to be deleted;
* `getMenu_of_run` — every `get_menu` answers what a fresh render gives.
-/
import SmartFoodOps.Catalog.Commits

open Keyed Program Machine

namespace Catalog

variable {n : ℕ} {zone : String} {purposeOf : ℕ → Purpose}

/-- No read and no other mutation overlaps a mutation. -/
def Sequential (s : System n) : Event n → Prop
  | .start _ _ | .getMenu _ => s.Idle
  | _ => True

instance (s : System n) (e : Event n) : Decidable (Sequential s e) :=
  match e with
  | .start _ _ | .getMenu _ => (inferInstance : Decidable s.Idle)
  | .run _ _ | .abort _ => .isTrue trivial

/-! ### What a commit changes -/

/-- Alone, a mutation announces a restaurant whose keys it deletes, or a new one. -/
theorem invalidates_or_new {db : Db} {call : Call} {target : Target} {ws : List Write}
    (hdb : db.Typed purposeOf) (h : Alone purposeOf (call.body zone) db (some target) ws) :
    target.invalidates ∨ db.restaurant target.restaurant = none := by
  cases hcall : call.invalidates with
  | true =>
    have hlocal := (body_local zone call).outcome (fun _ _ hw hI => hw.apply hI) hdb h
    exact .inl ((hlocal target rfl).1.trans hcall)
  | false =>
    cases call <;> cases hcall
    next owner name place cuisines timezone label =>
    right
    obtain ⟨existing, -, h⟩ := alone_after_read h alone_select
    split at h
    · cases h.1
    obtain ⟨brand, _, _, hbrand, -, h₁⟩ := alone_bind h
    obtain ⟨_, _, _, -, -, h₂⟩ := alone_bind h₁
    obtain ⟨_, _, _, -, -, h₃⟩ := alone_bind h₂
    obtain ⟨_, _, _, -, -, htarget, -⟩ := alone_bind h₃
    cases htarget
    obtain ⟨u, -, hinsert⟩ := alone_after_read (R := fun _ => True) hbrand fun _ _ hu =>
      ⟨trivial, (alone_draw hu).2⟩
    obtain ⟨_, _, _, hinsert, -, rfl, -⟩ := alone_bind hinsert
    have hinsert := (outcome_execute Write.apply (Drawn purposeOf)).mp hinsert
    split at hinsert
    · next hfresh =>
      have hnone : db.find (.restaurant brand) = none := hfresh.1 _ (List.mem_singleton_self _)
      show db.restaurant brand = none
      rw [Db.restaurant, hnone]
      rfl
    · cases hinsert

/-- A new restaurant has no branches yet. -/
theorem read_of_new {db : Db} {edits : List Write} {R : Restaurant} (hs : db.Typed purposeOf)
    (hvalid : db.Valid) (htyped : (applyWrites edits db).Typed purposeOf)
    (hnew : db.restaurant R.id = none) {o : RestaurantId}
    (ho : o ∈ fanOut (applyWrites edits db) R) : db.read o = none := by
  by_contra hne
  obtain ⟨R', hR'⟩ := Option.ne_none_iff_exists'.mp hne
  obtain ⟨row, hrow, hmeta, -⟩ := read_eq_some.mp hR'
  by_cases hself : o = R.id
  · rw [hself, hnew] at hrow
    cases hrow
  -- otherwise it is a branch of the restaurant, and its metadata refers to the restaurant
  have hmem : o ∈ ((applyWrites edits db).branches R.id).map (·.restaurantId) := by
    unfold fanOut at ho
    split at ho
    · exact (List.mem_cons.mp ho).resolve_left hself
    · exact absurd (List.mem_singleton.mp ho) hself
  obtain ⟨m, hm, rfl⟩ := List.mem_map.mp hmem
  obtain ⟨hm, hb, -⟩ := mem_branches.mp hm
  have hp := (htyped _ hm).1
  rw [hb] at hp
  have hkind : row.kind = .branch := by
    cases hk : row.kind with
    | branch => rfl
    | brand =>
      have hbrand := (restaurant_typed hs hrow).1 hk
      rw [hp] at hbrand
      cases hbrand
  obtain ⟨m', hm'⟩ := Option.ne_none_iff_exists'.mp (hmeta hkind)
  obtain ⟨hmem', hid⟩ := branchMetadata_eq_some.mp hm'
  have hp' := (hs _ hmem').1
  rw [hid, hp] at hp'
  have hbrand : R.id = m'.brandId := Purpose.branch.inj hp'
  refine hvalid.foreign _ hmem' (.restaurant m'.brandId) (by simp [Row.references]) ?_
  refine Table.find_eq_none.mpr fun x hx hk => ?_
  obtain ⟨x', hx'⟩ := restaurant_isSome_iff.mpr ⟨x, hx, hk⟩
  rw [← hbrand, hnew] at hx'
  cases hx'

/-! ### Coherence -/

section

variable (zone : String) (purposeOf : ℕ → Purpose)

/-- What a mutation has come to, on these committed tables. -/
def Tx.Edits (db : Db) : Tx → Prop
  | editing p edits => ∃ (call : Call) (facts : List (Db → Bool)),
    Replay Write.apply (Drawn purposeOf) db (call.body zone) facts p edits
  | publishing target edits _ _ _ =>
    ∃ call : Call, Alone purposeOf (call.body zone) db (some target) edits
  | _ => True

/-- A key that is about to be deleted. -/
def Stale (s : System n) (o : RestaurantId) : Prop :=
  ∃ pid todo, s.txs pid = .invalidating todo ∧ o ∈ todo

/-- At most one mutation is in progress. -/
def Lone (s : System n) : Prop := ∀ pid q, ¬ (s.txs pid).Idle → q ≠ pid → (s.txs q).Idle

structure Coherent (s : System n) : Prop where
  sound : Sound purposeOf s
  replays : ∀ pid, (s.txs pid).Replays purposeOf s.db
  edits : ∀ pid, (s.txs pid).Edits zone purposeOf s.db
  lone : Lone s
  cache : ∀ o doc, s.cache o = some doc → s.db.document o = some doc ∨ Stale s o

end

/-- A stale key stays stale until it is deleted. -/
theorem Stale.set {s : System n} {pid : Fin n} {tx : Tx} {o : RestaurantId} (h : Stale s o)
    (hpid : ∀ todo, s.txs pid = .invalidating todo → o ∈ todo →
      ∃ todo', tx = .invalidating todo' ∧ o ∈ todo') : Stale (s.set pid tx) o := by
  obtain ⟨q, todo, hq, ho⟩ := h
  by_cases hqp : q = pid
  · subst hqp
    obtain ⟨todo', rfl, ho'⟩ := hpid todo hq ho
    exact ⟨q, todo', Function.update_self .., ho'⟩
  · exact ⟨q, todo, (Function.update_of_ne hqp ..).trans hq, ho⟩

theorem Lone.set {s : System n} {pid : Fin n} {tx : Tx}
    (h : ∀ q, q ≠ pid → (s.txs q).Idle) : Lone (s.set pid tx) := by
  have hidle : ∀ q, q ≠ pid → ((s.set pid tx).txs q).Idle := by
    intro q hq
    show (Function.update s.txs pid tx q).Idle
    rw [Function.update_of_ne hq]
    exact h q hq
  intro a b ha hb
  by_cases hap : a = pid
  · exact hidle b (hap ▸ hb)
  · exact absurd (hidle a hap) ha

theorem Lone.others {s : System n} {pid : Fin n} (h : Lone s) (hpid : ¬ (s.txs pid).Idle) :
    ∀ q, q ≠ pid → (s.txs q).Idle := fun q hq => h pid q hpid hq

theorem Lone.ends {s : System n} {pid : Fin n} (h : Lone s) : Lone (s.set pid .idle) := by
  have hset : ∀ q, ¬ ((s.set pid .idle).txs q).Idle → q ≠ pid ∧ ¬ (s.txs q).Idle := by
    intro q hq
    have hq : ¬ (Function.update s.txs pid .idle q).Idle := hq
    rw [Function.update_apply] at hq
    split at hq
    · exact absurd trivial hq
    · next hne => exact ⟨hne, hq⟩
  intro a b ha hb
  by_contra hb'
  exact hb' (absurd (h a b (hset a ha).2 hb) (hset b hb').2)

/-- Only the lone mutation can hold a stale key. -/
theorem Lone.fresh {s : System n} {pid : Fin n} (h : Lone s) (hpid : ¬ (s.txs pid).Idle)
    (htx : ∀ todo, s.txs pid ≠ .invalidating todo) (o : RestaurantId) : ¬ Stale s o := by
  rintro ⟨q, todo, hq, -⟩
  by_cases hqp : q = pid
  · exact htx todo (hqp ▸ hq)
  · have hidle := h.others hpid q hqp
    rw [hq] at hidle
    exact hidle

theorem unmoved_of_idle {db : Db} {tx : Tx} (h : tx.Idle) : tx.Unmoved db := by
  cases tx with
  | idle => trivial
  | _ => exact h.elim

theorem edits_of_idle {db : Db} {tx : Tx} (h : tx.Idle) : tx.Edits zone purposeOf db := by
  cases tx with
  | idle => trivial
  | _ => exact h.elim

/-- **A commit changes the documents whose keys will be deleted, and no others.** -/
theorem document_of_commit {s : System n} {pid : Fin n} {target : Target} {edits staged : List Write}
    {affected : List RestaurantId} {facts : List (Db → Bool)} (hs : Coherent zone purposeOf s)
    (htx : s.txs pid = .publishing target edits (.ret affected) staged facts) {o : RestaurantId}
    {doc : MenuDoc} (hdoc : s.db.document o = some doc) :
    (applyWrites (edits ++ staged) s.db).document o = some doc ∨
      target.invalidates ∧ o ∈ affected := by
  obtain ⟨R, es, hc⟩ := committed hs.sound (hs.replays pid) htx
  obtain ⟨R', hR', hd⟩ := Option.map_eq_some_iff.mp hdoc
  by_cases hmem : o ∈ affected
  · right
    refine ⟨?_, hmem⟩
    have hedits := hs.edits pid
    rw [htx] at hedits
    obtain ⟨call, hcall⟩ := hedits
    refine (invalidates_or_new hs.sound.typed hcall).resolve_right fun hnew => ?_
    obtain ⟨hid, -⟩ := read_typed hc.typed hc.read
    rw [hc.affected_eq] at hmem
    rw [read_of_new hs.sound.typed hs.sound.valid hc.typed (hid ▸ hnew) hmem] at hR'
    cases hR'
  · left
    obtain ⟨hread, hmenu⟩ := hc.document o
    obtain ⟨hread', hmenu'⟩ := hc.outside o hmem (.inr ⟨R', hR'⟩)
    rw [Db.document, hread, hread', hR', Option.map_some, hmenu R', hmenu' R' hR', hd]

theorem not_idle {tx : Tx} {s : System n} {pid : Fin n} (h : s.txs pid = tx) (htx : ¬ tx.Idle) :
    ¬ (s.txs pid).Idle := by rwa [h]

theorem coherent_step {s u : System n} {e : Event n} (hs : Coherent zone purposeOf s)
    (hok : Sequential s e) (h : step zone purposeOf s e = some u) : Coherent zone purposeOf u := by
  have hreplays : ∀ pid, (u.txs pid).Replays purposeOf u.db := by
    refine replays_step hs.replays (fun pid drawn he ws hws q hq => ?_) h
    have hpid : ¬ (s.txs pid).Idle := by
      intro hidle
      cases htx : s.txs pid with
      | idle =>
        rw [htx] at hws
        cases hws
      | _ =>
        rw [htx] at hidle
        exact hidle.elim
    exact unmoved_of_idle (hs.lone.others hpid q hq)
  -- the cache is as before, and so are the tables
  have hkeep : ∀ {pid : Fin n} {tx : Tx},
      (∀ o todo, s.txs pid = .invalidating todo → o ∈ todo →
        ∃ todo', tx = .invalidating todo' ∧ o ∈ todo') →
      ∀ o doc, s.cache o = some doc →
        s.db.document o = some doc ∨ Stale (s.set pid tx) o :=
    fun hpid o doc ho => (hs.cache o doc ho).imp_right fun hstale => hstale.set (hpid o)
  refine ⟨sound_step hs.sound h, hreplays, ?_, ?_, ?_⟩
  · cases step_cases zone purposeOf h with
    | start hidle => exact forall_set hs.edits ⟨_, _, .start⟩
    | ends => exact forall_set hs.edits trivial
    | @publishes pid _ target edits htx =>
      have hedits := hs.edits pid
      rw [htx] at hedits
      obtain ⟨call, facts, hr⟩ := hedits
      exact forall_set hs.edits ⟨call, hr.outcome⟩
    | @edits pid _ p p' edits w facts htx ha =>
      have hedits := hs.edits pid
      rw [htx] at hedits
      obtain ⟨call, facts, hr⟩ := hedits
      exact forall_set hs.edits ⟨call, _, hr.advance ha⟩
    | @stages pid _ target edits staged w p p' facts facts' htx ha =>
      have hedits := hs.edits pid
      rw [htx] at hedits
      exact forall_set hs.edits hedits
    | @commits pid _ target edits staged affected facts htx hvalid =>
      have hothers := hs.lone.others (not_idle htx (by simp [Tx.Idle]))
      exact forall_set_of_ne (fun q hq => edits_of_idle (hothers q hq)) trivial
    | invalidates => exact forall_set hs.edits trivial
    | getMenu => exact hs.edits
  · cases step_cases zone purposeOf h with
    | start hidle => exact Lone.set fun q _ => hok q
    | ends => exact hs.lone.ends
    | publishes htx | edits htx | stages htx | invalidates htx =>
      exact Lone.set (hs.lone.others (not_idle htx (by simp [Tx.Idle])))
    | commits htx hvalid =>
      exact Lone.set (hs.lone.others (not_idle htx (by simp [Tx.Idle])))
    | getMenu => exact hs.lone
  · cases step_cases zone purposeOf h with
    | start htx | publishes htx | edits htx | stages htx =>
      exact hkeep fun o todo hinv => by simp [htx] at hinv
    | @ends pid _ hnone =>
      refine hkeep fun o todo hinv ho => ?_
      cases todo with
      | nil => cases ho
      | cons id todo => exact absurd hinv (hnone id todo)
    | @commits pid _ target edits staged affected facts htx hvalid =>
      intro o doc ho
      have hdoc : s.db.document o = some doc := by
        refine (hs.cache o doc ho).resolve_right (hs.lone.fresh (not_idle htx ?_) ?_ o)
        · simp [Tx.Idle]
        · simp [htx]
      refine (document_of_commit hs htx hdoc).imp_right ?_
      rintro ⟨hinv, hmem⟩
      exact ⟨pid, affected, by simp [System.set, hinv], hmem⟩
    | @invalidates pid _ id todo htx =>
      intro o doc ho
      have hne : o ≠ id := by
        rintro rfl
        simp at ho
      have ho : s.cache o = some doc := by rwa [← Function.update_of_ne hne none s.cache]
      refine (hs.cache o doc ho).imp_right fun hstale => hstale.set fun todo' hinv ho' => ?_
      rw [htx] at hinv
      cases hinv
      exact ⟨todo, rfl, (List.mem_cons.mp ho').resolve_left hne⟩
    | @getMenu id =>
      intro o doc ho
      by_cases hid : o = id
      · subst hid
        have ho : Function.update s.cache o (s.getMenu o) o = some doc := ho
        rw [Function.update_self] at ho
        unfold System.getMenu at ho
        split at ho
        · next doc' hcached =>
          cases ho
          exact hs.cache o doc hcached
        · exact .inl ho
      · have ho : Function.update s.cache id (s.getMenu id) o = some doc := ho
        rw [Function.update_of_ne hid] at ho
        exact hs.cache o doc ho

/-! ### Runs -/

theorem coherent_of_run {es : List (Event n)} {s : System n}
    (h : Run (step zone purposeOf) Sequential .empty es s) : Coherent zone purposeOf s := by
  have h0 : Coherent zone purposeOf (System.empty : System n) :=
    ⟨sound_empty, fun _ => trivial, fun _ => trivial, fun _ _ _ _ => trivial,
      fun _ _ ho => by cases ho⟩
  exact h.invariant (I := Coherent zone purposeOf) h0 fun _ _ _ hs hok hstep =>
    coherent_step hs hok hstep

/-- A document that a step changes has a key that is about to be deleted. -/
theorem stale_of_changed {s u : System n} {e : Event n} (hs : Coherent zone purposeOf s)
    (h : step zone purposeOf s e = some u) {o : RestaurantId} {doc : MenuDoc}
    (hdoc : s.db.document o = some doc) (hne : u.db.document o ≠ some doc) : Stale u o := by
  cases step_cases zone purposeOf h with
  | @commits pid _ target edits staged affected facts htx hvalid =>
    obtain ⟨hinv, hmem⟩ := (document_of_commit hs htx hdoc).resolve_left hne
    exact ⟨pid, affected, by simp [System.set, hinv], hmem⟩
  | _ => exact absurd hdoc hne

/-- **Every `get_menu` answers what a fresh render gives**, and every step that changes a
document leaves its cache key to be deleted. -/
theorem getMenu_of_run {es : List (Event n)} {s : System n}
    (h : Run (step zone purposeOf) Sequential .empty es s) :
    (s.Idle → ∀ id, s.getMenu id = s.db.document id) ∧
      ∀ e u o doc, step zone purposeOf s e = some u → s.db.document o = some doc →
        u.db.document o ≠ some doc → Stale u o := by
  have hs := coherent_of_run h
  refine ⟨fun hidle id => ?_, fun e u o doc hstep hdoc hne => stale_of_changed hs hstep hdoc hne⟩
  unfold System.getMenu
  split
  · next doc hcached =>
    refine ((hs.cache id doc hcached).resolve_right ?_).symm
    rintro ⟨pid, todo, hpid, -⟩
    have hp := hidle pid
    rw [hpid] at hp
    exact hp
  · rfl

theorem getMenu_of_visits : ∃ s : System 1,
    Run (step "UTC" demoPurposes) Sequential .empty
      (creation 0 ++ [.getMenu 2] ++ pausing 0 ++ runs 0 4 ++ [.getMenu 2]) s ∧
      (s.getMenu 2).map (·.status) = some (some .paused) ∧ s.getMenu 2 = s.db.document 2 := by
  obtain ⟨s, hrun, hp⟩ : ∃ s : System 1, Run (step "UTC" demoPurposes) Sequential .empty
      (creation 0 ++ [.getMenu 2] ++ pausing 0 ++ runs 0 4 ++ [.getMenu 2]) s ∧
        decide (s.Idle ∧ (s.getMenu 2).map (·.status) = some (some .paused)) = true :=
    exists_run_of_execOk (by decide)
  obtain ⟨hidle, hpaused⟩ := of_decide_eq_true hp
  exact ⟨s, hrun, hpaused, (getMenu_of_run hrun).1 hidle 2⟩

end Catalog
