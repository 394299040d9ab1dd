/-
Events reach Kafka in the order of their commits, if the clock has them in that order.

* `Committed`, `Keeps` — events, with the numbers of their transactions, which they keep;
* `step_cases` — what a step does to the outbox, to the batch and to the wire;
* `Lossless`, `lossless_of_run` — what is published was sent, and what is sent was committed;
* `Batch`, `Ordered` — a batch is in order, and has whatever must be sent before its rows;
* `exists_drained` — the poller, left alone, publishes whatever is committed;
* `ordered_of_run` — under `Timely`, the order; and that nothing is lost;
* `reordered` — what a writer that has waited for a lock does to the order.
-/
import SmartFoodOps.Outbox.Poller

set_option linter.unusedSectionVars false

open Machine Keyed

namespace Outbox

variable {π τ : Type} [DecidableEq τ] {batchSize : ℕ} {w w' : World π τ} {i : Label π τ}
  {is : List (Label π τ)} {row row' : Row π} {n n' : ℕ} {done todo : List (Row π)} {p : Pass π}

/-! ### What a step does -/

/-- The batch whose first row is due, and what is on the wire once it is sent. -/
def Sends (w w' : World π τ) (row : Row π) (done todo : List (Row π)) : Prop :=
  w.pass = some ⟨done, row :: todo⟩ ∧ w'.wire = w.wire ++ [row]

/-- **A step** leaves all, or the batch is dropped; it commits, selects, sends or marks. -/
theorem step_cases (hs : step batchSize w i = some w') :
    (w'.outbox = w.outbox ∧ w'.commits = w.commits ∧ w'.wire = w.wire ∧
      (w'.pass = w.pass ∨ w'.pass = none)) ∨
    (∃ wr, w'.outbox.rows = w.committing wr ++ w.outbox.rows ∧ w'.commits = w.commits + 1 ∧
      w'.wire = w.wire ∧ w'.pass = w.pass) ∨
    (i = .select ∧ w'.outbox = w.outbox ∧ w'.commits = w.commits ∧ w'.wire = w.wire ∧
      w'.pass = some ⟨[], (earliest (fun e => e.stamp) batchSize w.unpublished).map Stored.toRow⟩) ∨
    (∃ row done todo, w'.outbox = w.outbox ∧ w'.commits = w.commits ∧ Sends w w' row done todo ∧
      (w'.pass = some ⟨done ++ [row], todo⟩ ∨ w'.pass = none)) ∨
    (∃ done, w.pass = some ⟨done, []⟩ ∧ w'.outbox = (w.publish done).outbox ∧
      w'.commits = w.commits ∧ w'.wire = w.wire ∧ w'.pass = none) := by
  cases i with
  | begin t now =>
    simp only [step] at hs
    split at hs
    · cases hs
      exact .inl ⟨rfl, rfl, rfl, .inl rfl⟩
    · cases hs
  | clock t now =>
    obtain ⟨wr, -, rfl⟩ := Option.map_eq_some_iff.mp hs
    exact .inl ⟨rfl, rfl, rfl, .inl rfl⟩
  | lock t a =>
    obtain ⟨wr, -, hs⟩ := Option.bind_eq_some_iff.mp hs
    split at hs
    · cases hs
      exact .inl ⟨rfl, rfl, rfl, .inl rfl⟩
    · cases hs
  | stage t id a body =>
    obtain ⟨wr, -, hs⟩ := Option.bind_eq_some_iff.mp hs
    split at hs
    · cases hs
      exact .inl ⟨rfl, rfl, rfl, .inl rfl⟩
    · cases hs
  | commit t =>
    obtain ⟨wr, -, hs⟩ := Option.bind_eq_some_iff.mp hs
    split at hs
    · cases hs
      exact .inr (.inl ⟨wr, rfl, rfl, rfl, rfl⟩)
    · cases hs
  | abort t =>
    obtain ⟨wr, -, rfl⟩ := Option.map_eq_some_iff.mp hs
    exact .inl ⟨rfl, rfl, rfl, .inl rfl⟩
  | select =>
    simp only [step] at hs
    split at hs
    · split at hs
      · cases hs
        exact .inl ⟨rfl, rfl, rfl, .inl rfl⟩
      · cases hs
        exact .inr (.inr (.inl ⟨rfl, rfl, rfl, rfl, rfl⟩))
    · cases hs
  | send =>
    obtain ⟨⟨done, todo⟩, hp, hs⟩ := Option.bind_eq_some_iff.mp hs
    rcases todo with _ | ⟨row, todo⟩
    · cases hs
    · cases hs
      exact .inr (.inr (.inr (.inl ⟨row, done, todo, rfl, rfl, ⟨hp, rfl⟩, .inl rfl⟩)))
  | fail reached =>
    obtain ⟨⟨done, todo⟩, hp, hs⟩ := Option.bind_eq_some_iff.mp hs
    rcases todo with _ | ⟨row, todo⟩
    · cases hs
    · cases hs
      cases reached with
      | false => exact .inl ⟨rfl, rfl, rfl, .inr rfl⟩
      | true => exact .inr (.inr (.inr (.inl ⟨row, done, todo, rfl, rfl, ⟨hp, rfl⟩, .inr rfl⟩)))
  | stop =>
    obtain ⟨p, -, rfl⟩ := Option.map_eq_some_iff.mp hs
    exact .inl ⟨rfl, rfl, rfl, .inr rfl⟩
  | mark =>
    obtain ⟨⟨done, todo⟩, hp, hs⟩ := Option.bind_eq_some_iff.mp hs
    rcases todo with _ | ⟨row, todo⟩
    · cases hs
      exact .inr (.inr (.inr (.inr ⟨done, hp, rfl, rfl, rfl, rfl⟩)))
    · cases hs

/-! ### Commits -/

/-- The event was committed by the transaction with the number `n`. -/
def World.Committed (w : World π τ) (row : Row π) (n : ℕ) : Prop :=
  ∃ e ∈ w.outbox, e.toRow = row ∧ e.commit = n

theorem World.Committed.unique (h : w.Committed row n) (h' : w.Committed row n') : n = n' := by
  obtain ⟨e, he, rfl, rfl⟩ := h
  obtain ⟨e', he', hrow, rfl⟩ := h'
  rw [Table.eq_of_key he' he (congrArg Row.id hrow)]

/-- Events stay, with their numbers; new ones have the next number. -/
structure Keeps (w w' : World π τ) : Prop where
  counts : w.commits ≤ w'.commits
  old : ∀ {row n}, w.Committed row n → w'.Committed row n
  new : ∀ {row n}, w'.Committed row n → w.Committed row n ∨ n = w.commits ∧ n < w'.commits

theorem keeps_of_eq (hout : w'.outbox = w.outbox) (hcommits : w'.commits = w.commits) :
    Keeps w w' := by
  have hsame : ∀ {row n}, w'.Committed row n ↔ w.Committed row n := by
    intro row n
    unfold World.Committed
    rw [hout]
  exact ⟨hcommits.ge, hsame.mpr, fun h => .inl (hsame.mp h)⟩

theorem keeps_commit {wr : Writer π} (hrows : w'.outbox.rows = w.committing wr ++ w.outbox.rows)
    (hcommits : w'.commits = w.commits + 1) : Keeps w w' := by
  refine ⟨by omega, ?_, ?_⟩
  · rintro row n ⟨e, he, h⟩
    refine ⟨e, ?_, h⟩
    rw [Table.mem_def, hrows]
    exact List.mem_append_right _ he
  · rintro row n ⟨e, he, hrow, rfl⟩
    rw [Table.mem_def, hrows] at he
    rcases List.mem_append.mp he with he | he
    · obtain ⟨x, -, rfl⟩ := List.mem_map.mp he
      refine .inr ⟨rfl, ?_⟩
      show w.commits < w'.commits
      omega
    · exact .inl ⟨e, he, hrow, rfl⟩

theorem mem_publish {e : Stored π} {batch : List (Row π)} :
    e ∈ (w.publish batch).outbox ↔
      ∃ x ∈ w.outbox, e = if x.id ∈ batch.map Row.id then { x with published := true } else x := by
  unfold World.publish
  rw [Table.mem_updateWhere]
  simp only [decide_eq_true_eq]

theorem keeps_publish (hout : w'.outbox = (w.publish done).outbox)
    (hcommits : w'.commits = w.commits) : Keeps w w' := by
  refine ⟨hcommits.ge, ?_, ?_⟩
  · rintro row n ⟨x, hx, rfl, rfl⟩
    unfold World.Committed
    rw [hout]
    refine ⟨_, mem_publish.mpr ⟨x, hx, rfl⟩, ?_⟩
    split
    · exact ⟨rfl, rfl⟩
    · exact ⟨rfl, rfl⟩
  · rintro row n ⟨e, he, rfl, rfl⟩
    rw [hout] at he
    obtain ⟨x, hx, rfl⟩ := mem_publish.mp he
    refine .inl ⟨x, hx, ?_⟩
    split
    · exact ⟨rfl, rfl⟩
    · exact ⟨rfl, rfl⟩

theorem keeps_step (hs : step batchSize w i = some w') : Keeps w w' := by
  rcases step_cases hs with ⟨hout, hcommits, -⟩ | ⟨wr, hrows, hcommits, -⟩ |
    ⟨-, hout, hcommits, -⟩ | ⟨row, done, todo, hout, hcommits, -⟩ | ⟨done, -, hout, hcommits, -⟩
  · exact keeps_of_eq hout hcommits
  · exact keeps_commit hrows hcommits
  · exact keeps_of_eq hout hcommits
  · exact keeps_of_eq hout hcommits
  · exact keeps_publish hout hcommits

/-! ### Nothing is lost -/

structure Lossless (w : World π τ) : Prop where
  counted : ∀ {row n}, w.Committed row n → n < w.commits
  sent : ∀ e ∈ w.outbox, e.published = true → e.toRow ∈ w.wire
  known : ∀ row ∈ w.wire, ∃ n, w.Committed row n
  done : ∀ p, w.pass = some p → ∀ row ∈ p.done, row ∈ w.wire
  batch : ∀ p, w.pass = some p → ∀ row ∈ p.done ++ p.todo, ∃ n, w.Committed row n

theorem not_committed_init : ¬ (World.init : World π τ).Committed row n := by
  rintro ⟨e, he, -⟩
  exact absurd he Table.not_mem_empty

theorem lossless_init : Lossless (World.init : World π τ) where
  counted h := absurd h not_committed_init
  sent _ he := absurd he Table.not_mem_empty
  known := nofun
  done := nofun
  batch := nofun

/-- The row that is due is on the wire, and so is what was there. -/
theorem mem_of_sends (h : Sends w w' row done todo) (hrow : row' ∈ w'.wire) :
    row' ∈ w.wire ∨ row' = row := by
  rw [h.2] at hrow
  exact (List.mem_append.mp hrow).imp_right List.mem_singleton.mp

theorem Sends.mem (h : Sends w w' row done todo) : row ∈ w'.wire := by
  rw [h.2]
  exact List.mem_append_right _ (List.mem_singleton.mpr rfl)

theorem Sends.mono (h : Sends w w' row done todo) (hrow : row' ∈ w.wire) : row' ∈ w'.wire := by
  rw [h.2]
  exact List.mem_append_left _ hrow

theorem concat_append (done todo : List (Row π)) (row : Row π) :
    (done ++ [row]) ++ todo = done ++ row :: todo := by simp

theorem lossless_step (hw : Lossless w) (hs : step batchSize w i = some w') : Lossless w' := by
  have hk := keeps_step hs
  have hcounted : ∀ {row n}, w'.Committed row n → n < w'.commits := by
    intro row n h
    rcases hk.new h with h | ⟨-, h⟩
    · exact (hw.counted h).trans_le hk.counts
    · exact h
  have hmore : ∀ {row}, (∃ n, w.Committed row n) → ∃ n, w'.Committed row n := by
    rintro row ⟨n, h⟩
    exact ⟨n, hk.old h⟩
  rcases step_cases hs with ⟨hout, -, hwire, hpass⟩ | ⟨wr, hrows, -, hwire, hpass⟩ |
    ⟨-, hout, -, hwire, hpass⟩ | ⟨row, done, todo, hout, -, hsends, hpass⟩ |
    ⟨done, hp, hout, -, hwire, hpass⟩
  · have hsame : ∀ p, w'.pass = some p → w.pass = some p := by
      intro p hp
      rcases hpass with hpass | hpass
      · rwa [← hpass]
      · rw [hpass] at hp
        cases hp
    exact ⟨hcounted, hwire ▸ hout ▸ hw.sent, fun row h => hmore (hw.known row (hwire ▸ h)),
      fun p hp => hwire ▸ hw.done p (hsame p hp),
      fun p hp row h => hmore (hw.batch p (hsame p hp) row h)⟩
  · refine ⟨hcounted, fun e he hpub => ?_, fun row h => hmore (hw.known row (hwire ▸ h)),
      fun p hp => hwire ▸ hw.done p (hpass ▸ hp),
      fun p hp row h => hmore (hw.batch p (hpass ▸ hp) row h)⟩
    rw [Table.mem_def, hrows] at he
    rcases List.mem_append.mp he with he | he
    · -- a transaction commits its rows unpublished
      obtain ⟨x, -, rfl⟩ := List.mem_map.mp he
      cases hpub
    · rw [hwire]
      exact hw.sent e he hpub
  · refine ⟨hcounted, hwire ▸ hout ▸ hw.sent, fun row h => hmore (hw.known row (hwire ▸ h)), ?_, ?_⟩
    · intro p hp row h
      rw [hpass] at hp
      cases hp
      cases h
    · intro p hp row h
      rw [hpass] at hp
      cases hp
      obtain ⟨e, he, rfl⟩ := List.mem_map.mp h
      exact hmore ⟨e.commit, e, List.mem_of_mem_filter (mem_of_mem_earliest he), rfl, rfl⟩
  · have hbatch := hw.batch _ hsends.1
    refine ⟨hcounted, fun e he hpub => hsends.mono (hw.sent e (hout ▸ he) hpub), ?_, ?_, ?_⟩
    · intro x hx
      rcases mem_of_sends hsends hx with hx | rfl
      · exact hmore (hw.known x hx)
      · exact hmore (hbatch x (List.mem_append_right _ List.mem_cons_self))
    · intro p hp x hx
      rcases hpass with hpass | hpass
      · rw [hpass] at hp
        cases hp
        rcases List.mem_append.mp hx with hx | hx
        · exact hsends.mono (hw.done _ hsends.1 x hx)
        · rw [List.mem_singleton.mp hx]
          exact hsends.mem
      · rw [hpass] at hp
        cases hp
    · intro p hp x hx
      rcases hpass with hpass | hpass
      · rw [hpass] at hp
        cases hp
        rw [concat_append] at hx
        exact hmore (hbatch x hx)
      · rw [hpass] at hp
        cases hp
  · refine ⟨hcounted, fun e he hpub => ?_, fun row h => hmore (hw.known row (hwire ▸ h)),
      fun p hp' => ?_, fun p hp' => ?_⟩
    · rw [hout] at he
      rw [hwire]
      obtain ⟨x, hx, rfl⟩ := mem_publish.mp he
      split at hpub
      · next hid =>
        rw [if_pos hid]
        obtain ⟨row, hrow, hrid⟩ := List.mem_map.mp hid
        obtain ⟨n, y, hy, rfl, -⟩ := hw.batch _ hp row (List.mem_append_left _ hrow)
        obtain rfl : y = x := Table.eq_of_key hy hx hrid
        exact hw.done _ hp _ hrow
      · next hid =>
        rw [if_neg hid]
        exact hw.sent x hx hpub
    · rw [hpass] at hp'
      cases hp'
    · rw [hpass] at hp'
      cases hp'

theorem lossless_of_run {ok : World π τ → Label π τ → Prop}
    (h : Run (step batchSize) ok World.init is w) : Lossless w :=
  h.invariant lossless_init fun _ _ _ hw _ hs => lossless_step hw hs

/-! ### The order -/

/-- A batch is in order; what must be sent before one of its rows has been, or comes before it. -/
structure Batch (w : World π τ) (p : Pass π) : Prop where
  sorted : (p.done ++ p.todo).Pairwise fun x y => x.stamp < y.stamp
  earlier : ∀ {row n row' n'}, row ∈ p.todo → w.Committed row n → w.Committed row' n' →
    row'.aggregate = row.aggregate → n' < n →
    row' ∈ w.wire ∨ row' ∈ p.done ++ p.todo ∧ row'.stamp < row.stamp

structure Ordered (w : World π τ) : Prop where
  batch : ∀ p, w.pass = some p → Batch w p
  wire : ∀ {row n row' n'}, w.Committed row n → w.Committed row' n' →
    row'.aggregate = row.aggregate → n' < n → ∀ pre post, w.wire = pre ++ row :: post → row' ∈ pre

theorem ordered_init : Ordered (World.init : World π τ) where
  batch := nofun
  wire h := absurd h not_committed_init

/-- What comes before an event that was there was there. -/
theorem Keeps.back (hk : Keeps w w') (hw : Lossless w) (hrow : ∃ m, w.Committed row m)
    (h : w'.Committed row n) (h' : w'.Committed row' n') (hlt : n' < n) :
    w.Committed row n ∧ w.Committed row' n' := by
  obtain ⟨m, hm⟩ := hrow
  obtain rfl : n = m := h.unique (hk.old hm)
  refine ⟨hm, (hk.new h').resolve_right fun hnew => ?_⟩
  have hcounted := hw.counted hm
  omega

/-- **The row that is due** comes after all that was committed before it. -/
theorem mem_wire_of_due (hw : Lossless w) (ho : Ordered w) (hp : w.pass = some ⟨done, row :: todo⟩)
    (hrow : w.Committed row n) (hrow' : w.Committed row' n')
    (ha : row'.aggregate = row.aggregate) (hlt : n' < n) : row' ∈ w.wire := by
  have hbatch := ho.batch _ hp
  rcases hbatch.earlier List.mem_cons_self hrow hrow' ha hlt with hwire | ⟨hmem, hstamp⟩
  · exact hwire
  · rcases List.mem_append.mp hmem with hdone | htodo
    · exact hw.done _ hp row' hdone
    · -- the rows of a batch that are not sent yet come after the row that is due
      rcases List.mem_cons.mp htodo with rfl | hrest
      · exact absurd hstamp (lt_irrefl _)
      · have hsorted := (List.pairwise_append.mp hbatch.sorted).2.1
        exact absurd ((List.pairwise_cons.mp hsorted).1 row' hrest) hstamp.asymm

/-- The places of a row in a list that has become longer by one. -/
theorem eq_append_of_concat {α : Type} {l pre post : List α} {x y : α}
    (h : l ++ [y] = pre ++ x :: post) : (∃ post', l = pre ++ x :: post') ∨ x = y ∧ l = pre := by
  rcases List.eq_nil_or_concat post with rfl | ⟨post', z, rfl⟩
  · obtain ⟨hl, hx⟩ := List.append_inj' h rfl
    exact .inr ⟨(List.cons.inj hx).1.symm, hl⟩
  · rw [List.concat_eq_append, ← List.cons_append, ← List.append_assoc] at h
    exact .inl ⟨post', (List.append_inj' h rfl).1⟩

theorem stamped_unpublished (w : World π τ) : Stamped (fun e => e.stamp) w.unpublished := by
  refine ⟨w.outbox.nodup.filter _, fun x hx y hy h => ?_⟩
  have hid : x.id = y.id := congrArg (fun s => (ofLex s).2) h
  exact Table.eq_of_key (List.mem_of_mem_filter hx) (List.mem_of_mem_filter hy) hid

/-- A batch that has just been selected. -/
theorem batch_selected (hw : Lossless w) (ht : Timely w .select)
    (hk : ∀ {row n}, w'.Committed row n → w.Committed row n) (hwire : w'.wire = w.wire) :
    Batch w' ⟨[], (earliest (fun e => e.stamp) batchSize w.unpublished).map Stored.toRow⟩ := by
  constructor
  · show List.Pairwise _ (List.map _ _)
    rw [List.pairwise_map]
    exact pairwise_earliest (stamped_unpublished w)
  · intro row n row' n' hmem hrow hrow' ha hlt
    obtain ⟨e, he, rfl, rfl⟩ := hk hrow
    obtain ⟨old, hold, rfl, rfl⟩ := hk hrow'
    rw [hwire]
    by_cases hsent : old.toRow ∈ w.wire
    · exact .inl hsent
    · -- an event that was not sent is not published, so that the select finds it
      have hun : old ∈ w.unpublished := by
        refine List.mem_filter.mpr ⟨hold, ?_⟩
        cases hpub : old.published with
        | false => rfl
        | true => exact absurd (hw.sent old hold hpub) hsent
      have hstamp : old.stamp < e.stamp := ht e he old hold ha hlt hsent
      obtain ⟨x, hx, hxe⟩ := List.mem_map.mp hmem
      have hxs : x.stamp = e.stamp := congrArg Row.stamp hxe
      have hmem' := mem_earliest_of_lt (stamped_unpublished w) hun hx (hxs ▸ hstamp)
      exact .inr ⟨List.mem_map_of_mem hmem', hstamp⟩

theorem ordered_step (hw : Lossless w) (ho : Ordered w) (ht : Timely w i)
    (hs : step batchSize w i = some w') : Ordered w' := by
  have hk := keeps_step hs
  -- a wire that is the same, and a batch that is the same or dropped
  have hsame : w'.wire = w.wire → (w'.pass = w.pass ∨ w'.pass = none) → Ordered w' := by
    intro hwire hpass
    constructor
    · intro p hp
      rcases hpass with hpass | hpass
      · rw [hpass] at hp
        refine ⟨(ho.batch p hp).sorted, fun {row n row' n'} hmem hrow hrow' ha hlt => ?_⟩
        have hknown := hw.batch p hp row (List.mem_append_right _ hmem)
        obtain ⟨h, h'⟩ := hk.back hw hknown hrow hrow' hlt
        rw [hwire]
        exact (ho.batch p hp).earlier hmem h h' ha hlt
      · rw [hpass] at hp
        cases hp
    · intro row n row' n' hrow hrow' ha hlt pre post hpre
      rw [hwire] at hpre
      have hmem : row ∈ w.wire := hpre ▸ List.mem_append_right _ List.mem_cons_self
      obtain ⟨h, h'⟩ := hk.back hw (hw.known row hmem) hrow hrow' hlt
      exact ho.wire h h' ha hlt pre post hpre
  rcases step_cases hs with ⟨-, -, hwire, hpass⟩ | ⟨-, -, -, hwire, hpass⟩ |
    ⟨rfl, hout, hcommits, hwire, hpass⟩ | ⟨row, done, todo, -, -, hsends, hpass⟩ |
    ⟨done, hp, -, -, hwire, hpass⟩
  · exact hsame hwire hpass
  · exact hsame hwire (.inl hpass)
  · have hback : ∀ {row n}, w'.Committed row n → w.Committed row n := by
      intro row n h
      exact (keeps_of_eq hout.symm hcommits.symm).old h
    constructor
    · intro p hp
      rw [hpass] at hp
      cases hp
      exact batch_selected hw ht hback hwire
    · intro row n row' n' hrow hrow' ha hlt pre post hpre
      exact ho.wire (hback hrow) (hback hrow') ha hlt pre post (hwire ▸ hpre)
  · have hbatch := ho.batch _ hsends.1
    have hknown := hw.batch _ hsends.1
    constructor
    · intro p hp
      rcases hpass with hpass | hpass
      · rw [hpass] at hp
        cases hp
        refine ⟨?_, ?_⟩
        · rw [concat_append]
          exact hbatch.sorted
        intro x m x' m' hmem hx hx' ha hlt
        have hmem' := List.mem_cons_of_mem row hmem
        obtain ⟨h, h'⟩ := hk.back hw (hknown x (List.mem_append_right _ hmem')) hx hx' hlt
        rw [concat_append]
        exact (hbatch.earlier hmem' h h' ha hlt).imp_left hsends.mono
      · rw [hpass] at hp
        cases hp
    · intro x m x' m' hx hx' ha hlt pre post hpre
      rw [hsends.2] at hpre
      rcases eq_append_of_concat hpre with ⟨post', hold⟩ | ⟨rfl, rfl⟩
      · have hmem : x ∈ w.wire := hold ▸ List.mem_append_right _ List.mem_cons_self
        obtain ⟨h, h'⟩ := hk.back hw (hw.known x hmem) hx hx' hlt
        exact ho.wire h h' ha hlt pre post' hold
      · have hdue := hknown x (List.mem_append_right _ List.mem_cons_self)
        obtain ⟨h, h'⟩ := hk.back hw hdue hx hx' hlt
        exact mem_wire_of_due hw ho hsends.1 h h' ha hlt
  · exact hsame hwire (.inr hpass)

theorem inv_of_run (h : Run (step batchSize) Timely World.init is w) : Lossless w ∧ Ordered w :=
  h.invariant (I := fun w => Lossless w ∧ Ordered w) ⟨lossless_init, ordered_init⟩ fun _ _ _ hw ht hs =>
    ⟨lossless_step hw.1 hs, ordered_step hw.1 hw.2 ht hs⟩

/-! ### Everything is sent -/

/-- The poller, alone, gets from one state to the other. -/
def Polls (batchSize : ℕ) (w w' : World π τ) : Prop :=
  ∃ is, (∀ i ∈ is, i.polls = true) ∧ Run (step batchSize) Always w is w'

theorem Polls.refl (w : World π τ) : Polls batchSize w w := ⟨[], nofun, .nil⟩

theorem Polls.cons {w'' : World π τ} (hi : i.polls = true) (hs : step batchSize w i = some w')
    (h : Polls batchSize w' w'') : Polls batchSize w w'' := by
  obtain ⟨is, hpolls, hrun⟩ := h
  refine ⟨i :: is, fun j hj => ?_, .cons trivial hs hrun⟩
  rcases List.mem_cons.mp hj with rfl | hj
  · exact hi
  · exact hpolls j hj

theorem Polls.trans {w'' : World π τ} (h : Polls batchSize w w') (h' : Polls batchSize w' w'') :
    Polls batchSize w w'' := by
  obtain ⟨is, hpolls, hrun⟩ := h
  obtain ⟨js, hpolls', hrun'⟩ := h'
  refine ⟨is ++ js, fun j hj => ?_, hrun.append hrun'⟩
  rcases List.mem_append.mp hj with hj | hj
  · exact hpolls j hj
  · exact hpolls' j hj

theorem polls_sends (hp : w.pass = some ⟨done, todo⟩) :
    Polls batchSize w { w with pass := some ⟨done ++ todo, []⟩, wire := w.wire ++ todo } := by
  induction todo generalizing w done with
  | nil =>
    rw [List.append_nil, List.append_nil, ← hp]
    exact .refl w
  | cons row todo ih =>
    have hs : step batchSize w .send =
        some { w with pass := some ⟨done ++ [row], todo⟩, wire := w.wire ++ [row] } := by
      simp [step, hp]
    have hrest := ih (w := { w with pass := some ⟨done ++ [row], todo⟩, wire := w.wire ++ [row] }) rfl
    simp only [List.append_assoc, List.singleton_append] at hrest
    exact .cons rfl hs hrest

theorem unpublished_publish (batch : List (Row π)) :
    (w.publish batch).unpublished = w.unpublished.filter fun e => e.id ∉ batch.map Row.id := by
  have hfilter : ((w.outbox.rows.map fun e => if e.id ∈ batch.map Row.id then
      { e with published := true } else e).filter fun e => ! e.published) =
      (w.outbox.rows.filter fun e => ! e.published).filter fun e => e.id ∉ batch.map Row.id := by
    induction w.outbox.rows with
    | nil => rfl
    | cons e rest ih =>
      rw [List.map_cons]
      by_cases hid : e.id ∈ batch.map Row.id
      · rw [if_pos hid, List.filter_cons_of_neg (by simp), ih, List.filter_cons]
        split
        · rw [List.filter_cons_of_neg (by simpa using hid)]
        · rfl
      · rw [if_neg hid, List.filter_cons, List.filter_cons, ih]
        split
        · rw [List.filter_cons_of_pos (by simpa using hid)]
        · rfl
  unfold World.unpublished World.publish Table.updateWhere
  simpa only [decide_eq_true_eq] using hfilter

/-- A pass of the poller. -/
theorem polls_pass (hb : 0 < batchSize) (hp : w.pass = none) (hun : w.unpublished ≠ []) :
    ∃ w', Polls batchSize w w' ∧ w'.pass = none ∧
      w'.unpublished.length < w.unpublished.length := by
  obtain ⟨e, rest, hrows⟩ : ∃ e rest, earliest (fun e => e.stamp) batchSize w.unpublished = e :: rest := by
    refine List.exists_cons_of_length_pos ?_
    rw [length_earliest]
    exact lt_min hb (List.length_pos_of_ne_nil hun)
  let batch := (e :: rest).map Stored.toRow
  have hselect : step batchSize w .select = some { w with pass := some ⟨[], batch⟩ } := by
    simp [step, hp, hrows, batch]
  let sent : World π τ := { w with pass := some ⟨batch, []⟩, wire := w.wire ++ batch }
  have hsends : Polls batchSize { w with pass := some ⟨[], batch⟩ } sent :=
    polls_sends (w := { w with pass := some ⟨[], batch⟩ }) rfl
  have hmark : step batchSize sent .mark = some { sent.publish batch with pass := none } := rfl
  refine ⟨_, .cons rfl hselect (hsends.trans (.cons rfl hmark (.refl _))), rfl, ?_⟩
  show ((sent.publish batch).unpublished).length < w.unpublished.length
  rw [unpublished_publish]
  have he : e ∈ w.unpublished := mem_of_mem_earliest (hrows ▸ List.mem_cons_self)
  refine List.length_filter_lt_length_iff_exists.mpr ⟨e, he, ?_⟩
  simp [batch]

theorem exists_drained_of_idle (hb : 0 < batchSize) (k : ℕ) :
    ∀ {w : World π τ}, w.pass = none → w.unpublished.length ≤ k →
      ∃ w', Polls batchSize w w' ∧ w'.unpublished = [] := by
  induction k with
  | zero =>
    intro w _ hk
    exact ⟨w, .refl w, List.length_eq_zero_iff.mp (Nat.le_zero.mp hk)⟩
  | succ k ih =>
    intro w hp hk
    by_cases hun : w.unpublished = []
    · exact ⟨w, .refl w, hun⟩
    · obtain ⟨w', hpolls, hp', hlt⟩ := polls_pass hb hp hun
      obtain ⟨w'', hpolls', hun'⟩ := ih hp' (by omega)
      exact ⟨w'', hpolls.trans hpolls', hun'⟩

/-- **Left alone, the poller publishes everything.** -/
theorem exists_drained (hb : 0 < batchSize) (w : World π τ) :
    ∃ w', Polls batchSize w w' ∧ w'.unpublished = [] := by
  rcases hp : w.pass with _ | p
  · exact exists_drained_of_idle hb _ hp le_rfl
  · have hstop : step batchSize w .stop = some { w with pass := none } := by simp [step, hp]
    obtain ⟨w', hpolls, hun⟩ := exists_drained_of_idle hb _ (w := { w with pass := none }) rfl le_rfl
    exact ⟨w', .cons rfl hstop hpolls, hun⟩

/-- Whatever is committed is sent, and whatever is sent was committed. -/
structure Delivers (batchSize : ℕ) (w : World π τ) : Prop where
  marked : ∀ e ∈ w.outbox, e.published = true → e.toRow ∈ w.wire
  known : ∀ row ∈ w.wire, ∃ e ∈ w.outbox, e.toRow = row
  drained : 0 < batchSize → ∃ w', Polls batchSize w w' ∧ ∀ e ∈ w.outbox, e.toRow ∈ w'.wire

/-- Wherever an event is on the wire, the earlier ones of its aggregate are before it. -/
def InOrder (w : World π τ) : Prop :=
  ∀ e ∈ w.outbox, ∀ old ∈ w.outbox, old.aggregate = e.aggregate → old.commit < e.commit →
    ∀ pre post, w.wire = pre ++ e.toRow :: post → old.toRow ∈ pre

theorem delivers_of_run {ok : World π τ → Label π τ → Prop}
    (h : Run (step batchSize) ok World.init is w) : Delivers batchSize w := by
  have hw := lossless_of_run h
  refine ⟨hw.sent, fun row hrow => ?_, fun hb => ?_⟩
  · obtain ⟨n, e, he, hrow, -⟩ := hw.known row hrow
    exact ⟨e, he, hrow⟩
  · obtain ⟨w', hpolls, hun⟩ := exists_drained hb w
    refine ⟨w', hpolls, fun e he => ?_⟩
    obtain ⟨js, -, hrun⟩ := hpolls
    have hw' := lossless_of_run (h.forget.append hrun)
    have hkept : w'.Committed e.toRow e.commit := by
      have hstart : w.Committed e.toRow e.commit := ⟨e, he, rfl, rfl⟩
      exact hrun.invariant (I := fun x => x.Committed e.toRow e.commit) hstart fun _ _ _ hx _ hs => (keeps_step hs).old hx
    obtain ⟨e', he', hrow, -⟩ := hkept
    rw [← hrow]
    refine hw'.sent e' he' ?_
    by_contra hpub
    have hmem : e' ∈ w'.unpublished := List.mem_filter.mpr ⟨he', by simpa using hpub⟩
    rw [hun] at hmem
    cases hmem

/-- **Kafka has the events of an aggregate in the order of their commits**, and all of them, if the
events that a select finds are in the order of their commits by the clock. -/
theorem ordered_of_run (h : Run (step batchSize) Timely World.init is w) :
    InOrder w ∧ Delivers batchSize w := by
  refine ⟨?_, delivers_of_run h⟩
  intro e he old hold ha hlt pre post hpre
  exact (inv_of_run h).2.wire ⟨e, he, rfl, rfl⟩ ⟨old, hold, rfl, rfl⟩ ha hlt pre post hpre

/-! ### Two writers of one stock -/

def stock : Aggregate := ⟨"stock", "r1:tea"⟩

/-- Two transactions that set a stock, the second once the first has committed; and a pass in which
the broker breaks off once. -/
def twoSets : List (Label ℕ ℕ) :=
  [.begin 0 1, .lock 0 stock, .stage 0 "e0" stock 7, .begin 1 2, .commit 0, .lock 1 stock,
    .stage 1 "e1" stock 5, .commit 1, .select, .send, .fail true, .select, .send, .send, .mark]

theorem ordered_twoSets : ∃ w : World ℕ ℕ, Run (step 100) Timely World.init twoSets w ∧
    InOrder w ∧ w.wire.map Row.body = [7, 5, 7, 5] := by
  obtain ⟨w, hrun, hwire⟩ : ∃ w : World ℕ ℕ, Run (step 100) Timely World.init twoSets w ∧
      decide (w.wire.map Row.body = [7, 5, 7, 5]) = true := exists_run_of_execOk (by decide +kernel)
  exact ⟨w, hrun, (ordered_of_run hrun).1, of_decide_eq_true hwire⟩

/-- A transaction that has read the clock, and then waits for the lock of another one. -/
def waited : List (Label ℕ ℕ) :=
  [.begin 0 1, .begin 1 2, .lock 1 stock, .stage 1 "e1" stock 5, .commit 1, .lock 0 stock,
    .stage 0 "e0" stock 7, .commit 0, .select, .send, .send, .mark]

/-- **A writer that waits for the lock is ahead of the one that it waits for**: it has read the
clock before. -/
theorem reordered : ∃ (is : List (Label ℕ ℕ)) (w : World ℕ ℕ),
    Run (step 100) Always World.init is w ∧ ¬ InOrder w := by
  obtain ⟨w, hrun, hp⟩ : ∃ w : World ℕ ℕ, Run (step 100) Always World.init waited w ∧
      decide (∃ e ∈ w.outbox.rows, ∃ old ∈ w.outbox.rows, old.aggregate = e.aggregate ∧
        old.commit < e.commit ∧ w.wire.head? = some e.toRow) = true :=
    exists_run_of_execOk (by decide +kernel)
  refine ⟨waited, w, hrun, fun horder => ?_⟩
  obtain ⟨e, he, old, hold, ha, hlt, hhead⟩ := of_decide_eq_true hp
  obtain ⟨post, hwire⟩ := List.head?_eq_some_iff.mp hhead
  exact List.not_mem_nil (horder e he old hold ha hlt [] post hwire)

end Outbox
