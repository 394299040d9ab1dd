/-
The index converges, as long as no other drain writes another payload in between.

* `Commit`, `watch` — the payloads that drains write and complete, recorded beside the passes;
* `Overtaken`, `Discharged`, `Ahead` — another payload of the restaurant has been written
  since a drain has read the texts, or completed since it has read the queue;
* `Fresh`, `Current`, `Watchful` — what a drain has read is still so, unless it is overtaken;
* `intact_of_ahead` — hence its write finds what it has read;
* `holds_of_run` — a restaurant that is not queued is indexed as it was last queued;
* `overtaken` — a slow drain puts an older menu back, and nothing is queued to mend it.
-/
import SmartFoodOps.Assistant.Indexing
import SmartFoodOps.Lib.Overlap

open Machine Keyed

namespace Assistant

variable {D V : Type}

/-! ### What other drains commit -/

/-- A payload that a drain writes to the index, or that it takes out of the queue. -/
inductive Commit
  | written (restaurantId : String) (payload : Payload)
  | completed (restaurantId : String) (payload : Payload)
  deriving DecidableEq

/-- `complete` finds the payload that the drain has read. -/
def completing (queue : Queue) (row : PendingRow) : List Commit :=
  if (queue.find row.restaurantId).any fun r => r.payload = row.payload then
    [.completed row.restaurantId row.payload]
  else []

def committed (w : World D V) : Event D → List Commit
  | .write d =>
    match (w.passes d).rows with
    | row :: _ => .written row.restaurantId row.payload :: completing w.queue row
    | [] => []
  | .discard d =>
    match (w.passes d).rows with
    | row :: _ => completing w.queue row
    | [] => []
  | _ => []

def watch : Watch (World D V) (Event D) D Commit where
  begins _ := fun
    | .due d _ _ _ => some d
    | _ => none
  runs := fun
    | .discard d | .readTexts d | .embed d | .write d | .fail d => some d
    | _ => none
  commits := committed

/-- Another payload of the restaurant is written. -/
def Commit.Overwrites (row : PendingRow) : Commit → Prop
  | .written r p => r = row.restaurantId ∧ p ≠ row.payload
  | .completed _ _ => False

/-- Another payload of the restaurant leaves the queue. -/
def Commit.Completes (row : PendingRow) : Commit → Prop
  | .completed r p => r = row.restaurantId ∧ p ≠ row.payload
  | .written _ _ => False

instance (row : PendingRow) (a : Commit) : Decidable (a.Overwrites row) := by
  cases a <;> unfold Commit.Overwrites <;> infer_instance

instance (row : PendingRow) (a : Commit) : Decidable (a.Completes row) := by
  cases a <;> unfold Commit.Completes <;> infer_instance

section

variable (x : Recipe V) (w : Watched (World D V) D Commit) (d : D) (n : ℕ) (row : PendingRow)

/-- Another drain has written another payload of the restaurant since this one's statement `n`. -/
def Overtaken : Prop := ∃ a, w.Since d n a ∧ a.Overwrites row

/-- Another drain has completed another payload of the restaurant since this one has read the
queue. -/
def Discharged : Prop := ∃ a, w.Since d 0 a ∧ a.Completes row

instance : Decidable (Overtaken w d n row) := inferInstanceAs (Decidable (∃ a, w.Since d n a ∧ _))

instance : Decidable (Discharged w d row) := inferInstanceAs (Decidable (∃ a, w.Since d 0 a ∧ _))

/-- A drain writes what it has read before it embedded, its last statement but one, and nobody has
written or completed another payload in between. -/
def Ahead : Event D → Prop
  | .handle restaurantId payload _ _ =>
    isIndexable payload = true → payload.Clear x.lower x.digest restaurantId
  | .write d => ∀ row ∈ (w.state.passes d).rows.head?,
    ¬ Overtaken w d (w.ran d - 1) row ∧ ¬ Discharged w d row
  | _ => True

instance : (e : Event D) → Decidable (Ahead x w e)
  | .handle _ _ _ _ => inferInstanceAs (Decidable (_ → _))
  | .write d => inferInstanceAs (Decidable (∀ row ∈ (w.state.passes d).rows.head?, _))
  | .due _ _ _ _ | .discard _ | .readTexts _ | .embed _ | .fail _ =>
    inferInstanceAs (Decidable True)

end

/-! ### What a drain has read -/

variable {x : Recipe V} {index : Index V} {w w' : Watched (World D V) D Commit}

/-- Texts are of two kinds. -/
structure Kinds (index : Index V) : Prop where
  restaurants : ∀ row ∈ index.restaurants, RestaurantText row.content
  items : ∀ row ∈ index.items, ItemText row.content

/-- A chunk whose text was stored has a row with its text. -/
structure Fresh (index : Index V) (k : Knowledge) (stored : List (String × String)) : Prop where
  restaurant : stored.lookup k.restaurant.id = some k.restaurant.content →
    ∃ row ∈ index.restaurants, row.id = k.restaurant.id ∧ row.content = k.restaurant.content
  items : ∀ c ∈ k.items, stored.lookup c.id = some c.content →
    ∃ row ∈ index.items, row.id = c.id ∧ row.content = c.content

theorem fresh_contentsFor (hlower : ∀ s, OneLine s → OneLine (x.lower s)) (h : Kinds index)
    {r : String} {p : Payload} {k : Knowledge} (hk : x.chunk r p = some k) :
    Fresh index k (index.contentsFor r) := by
  obtain ⟨-, rfl⟩ := chunk_eq_some.mp hk
  unfold Index.contentsFor
  constructor
  · intro hlookup
    rw [List.lookup_append, Option.or_eq_some_iff, lookup_rows, lookup_rows] at hlookup
    rcases hlookup with ⟨row, hrow, -, hid, hs⟩ | ⟨-, row, hrow, -, -, hs⟩
    · exact ⟨row, hrow, hid, hs⟩
    · exact absurd (hs ▸ h.items row hrow) (restaurantText_restaurantChunk hlower).not_itemText
  · intro c hc hlookup
    rw [List.lookup_append, Option.or_eq_some_iff, lookup_rows, lookup_rows] at hlookup
    rcases hlookup with ⟨row, hrow, -, -, hs⟩ | ⟨-, row, hrow, -, hid, hs⟩
    · exact absurd (itemText_of_mem_itemChunks hc) (hs ▸ h.restaurants row hrow).not_itemText
    · exact ⟨row, hrow, hid, hs⟩

/-- What a drain has read of the row at its head is still so, unless it is overtaken. -/
def Reads (x : Recipe V) (w : Watched (World D V) D Commit) (d : D) (row : PendingRow) :
    Phase V → Prop
  | .reading => True
  | .embedding stored => Overtaken w d (w.ran d) row ∨
      ∀ k, x.chunk row.restaurantId row.payload = some k → Fresh w.state.index k stored
  | .writing vectors => Overtaken w d (w.ran d - 1) row ∨
      ∀ k, x.chunk row.restaurantId row.payload = some k →
        ∃ stored, vectors = x.vectors k stored ∧ Fresh w.state.index k stored

/-- A row that a drain has read is still queued, or its payload is the latest. -/
def Valid (w : World D V) (row : PendingRow) : Prop :=
  w.queue.find row.restaurantId ≠ none ∨ w.latest row.restaurantId = some row.payload

structure Current (x : Recipe V) (w : Watched (World D V) D Commit) (d : D) : Prop where
  distinct : ((w.state.passes d).rows.map PendingRow.restaurantId).Nodup
  valid : ∀ row ∈ (w.state.passes d).rows, Discharged w d row ∨ Valid w.state row
  reads : ∀ row ∈ (w.state.passes d).rows.head?, Reads x w d row (w.state.passes d).phase

/-- **The invariant of an undisturbed run.** -/
structure Watchful (x : Recipe V) (w : Watched (World D V) D Commit) : Prop where
  inv : Inv x w.state
  kinds : Kinds w.state.index
  current : ∀ d, Current x w d

section

variable {d : D} {row : PendingRow} {e : Event D}

/-- A text that is not embedded stands. -/
theorem Fresh.stands {k : Knowledge} {stored : List (String × String)} (h : Fresh index k stored) :
    Stands index.restaurants (x.vectors k stored) k.restaurant ∧
      ∀ c ∈ k.items, Stands index.items (x.vectors k stored) c :=
  ⟨fun hnone => h.restaurant (lookup_of_get_vectors hnone List.mem_cons_self), fun c hc hnone =>
    h.items c hc (lookup_of_get_vectors hnone (List.mem_cons_of_mem _ (List.mem_map.mpr ⟨c, hc, rfl⟩)))⟩

/-- **What an undisturbed write finds** is what its drain had read. -/
theorem intact_of_ahead (h : Watchful x w) (hok : Ahead x w e) :
    Intact x w.state e := by
  cases e with
  | write d =>
    intro row hrow vectors hvectors k hk
    obtain ⟨hovertaken, hdischarged⟩ := hok row hrow
    have hreads := (h.current d).reads row hrow
    cases hphase : (w.state.passes d).phase with
    | reading | embedding stored =>
      rw [hphase] at hvectors
      cases hvectors
    | writing vectors' =>
      rw [hphase] at hvectors hreads
      cases hvectors
      obtain ⟨stored, rfl, hfresh⟩ := hreads.resolve_left hovertaken k hk
      refine ⟨hfresh.stands.1, hfresh.stands.2, fun hnone => ?_⟩
      have hlatest := (((h.current d).valid row (List.mem_of_mem_head? hrow)).resolve_left
        hdischarged).resolve_left (absurd hnone)
      unfold World.known
      rw [hlatest]
      exact hk
  | handle restaurantId payload now debounce => exact hok
  | _ => trivial

/-! ### One step -/

/-- **A write of another restaurant, or of the same payload,** leaves the texts that were read. -/
theorem fresh_replace {r r' : String} {p p' : Payload} {k k' : Knowledge}
    {stored stored' : List (String × String)} (hfresh : Fresh index k stored)
    (hsound : Sound x.embed index) (hk : x.chunk r p = some k) (hk' : x.chunk r' p' = some k')
    (hclear : p.Clear x.lower x.digest r) (hclear' : p'.Clear x.lower x.digest r')
    (hself : Stands index.restaurants (x.vectors k' stored') k'.restaurant)
    (hitems : ∀ c ∈ k'.items, Stands index.items (x.vectors k' stored') c)
    (hsame : r' = r → p' = p) : Fresh (index.replace r' k' (x.vectors k' stored')) k stored := by
  have hrestaurants := @mem_replace_restaurants _ x index r' p' k' stored' hk' hclear' hsound hself
  have hdishes := @mem_replace_items _ x index r' p' k' stored' hk' hclear' hsound hitems
  by_cases hr : r' = r
  · -- the chunks that are written are those that were to be written
    obtain rfl := hsame hr
    subst hr
    obtain rfl : k' = k := Option.some.inj (hk'.symm.trans hk)
    exact ⟨fun _ => ⟨_, hrestaurants.mpr (.inl rfl), rfl, rfl⟩,
      fun c hc _ => ⟨_, hdishes.mpr (.inl ⟨c, hc, rfl⟩), rfl, rfl⟩⟩
  · obtain ⟨-, rfl⟩ := chunk_eq_some.mp hk
    obtain ⟨-, rfl⟩ := chunk_eq_some.mp hk'
    constructor
    · intro hlookup
      obtain ⟨row, hrow, hid, hs⟩ := hfresh.restaurant hlookup
      refine ⟨row, hrestaurants.mpr (.inr ⟨hrow, fun he => hr ?_⟩), hid, hs⟩
      exact (chunkId_inj hclear'.colon hclear.colon (he.symm.trans hid)).1
    · intro c hc hlookup
      obtain ⟨row, hrow, hid, hs⟩ := hfresh.items c hc hlookup
      have hown := hid.trans (of_mem_itemChunks hc).1
      refine ⟨row, hdishes.mpr (.inr ⟨hrow, fun he => hr ?_, fun c' hc' he => hr ?_⟩), hid, hs⟩
      · obtain ⟨hcolon, itemId, hrowId⟩ := hsound.dish row hrow
        rw [← he]
        exact (chunkId_inj hcolon hclear.colon (hrowId.symm.trans hown)).1
      · exact (chunkId_inj hclear'.colon hclear.colon
          ((of_mem_itemChunks hc').1.symm.trans (he.symm.trans hown))).1

theorem kinds_replace (hlower : ∀ s, OneLine s → OneLine (x.lower s)) (h : Kinds index)
    {r : String} {p : Payload} {k : Knowledge} {stored : List (String × String)}
    (hsound : Sound x.embed index) (hk : x.chunk r p = some k) (hclear : p.Clear x.lower x.digest r)
    (hself : Stands index.restaurants (x.vectors k stored) k.restaurant)
    (hitems : ∀ c ∈ k.items, Stands index.items (x.vectors k stored) c) :
    Kinds (index.replace r k (x.vectors k stored)) := by
  constructor
  · intro row hrow
    rcases (mem_replace_restaurants hk hclear hsound hself).mp hrow with rfl | ⟨hmem, -⟩
    · obtain ⟨-, rfl⟩ := chunk_eq_some.mp hk
      exact @restaurantText_restaurantChunk x.lower x.digest r p hlower
    · exact h.restaurants row hmem
  · intro row hrow
    rcases (mem_replace_items hk hclear hsound hitems).mp hrow with ⟨c, hc, rfl⟩ | ⟨hmem, -⟩
    · obtain ⟨-, rfl⟩ := chunk_eq_some.mp hk
      exact itemText_of_mem_itemChunks hc
    · exact h.items row hmem

/-- A drain whose pass is left alone, if its row is left alone or the record says that it is not. -/
theorem Current.frame (h : Current x w d)
    (hpass : w'.state.passes d = w.state.passes d) (hran : w'.ran d = w.ran d)
    (hsince : ∀ n a, w.Since d n a → w'.Since d n a)
    (hvalid : ∀ row ∈ (w.state.passes d).rows, Valid w.state row →
      Discharged w' d row ∨ Valid w'.state row)
    (hfresh : ∀ row ∈ (w.state.passes d).rows,
      (∀ n, n ≤ w.ran d → Overtaken w' d n row) ∨
        ∀ k stored, x.chunk row.restaurantId row.payload = some k →
          Fresh w.state.index k stored → Fresh w'.state.index k stored) : Current x w' d := by
  refine ⟨hpass ▸ h.distinct, ?_, ?_⟩
  · intro row hrow
    rw [hpass] at hrow
    rcases h.valid row hrow with ⟨a, ha, hcompletes⟩ | hv
    · exact .inl ⟨a, hsince 0 a ha, hcompletes⟩
    · exact hvalid row hrow hv
  · intro row hrow
    rw [hpass] at hrow ⊢
    have hreads := h.reads row hrow
    have hover : ∀ n, Overtaken w d n row → Overtaken w' d n row :=
      fun n ⟨a, ha, hp⟩ => ⟨a, hsince n a ha, hp⟩
    have hcases := hfresh row (List.mem_of_mem_head? hrow)
    cases hphase : (w.state.passes d).phase with
    | reading => trivial
    | embedding stored =>
      rw [hphase] at hreads
      unfold Reads at hreads ⊢
      rw [hran]
      rcases hreads with hcrossed | hread
      · exact .inl (hover _ hcrossed)
      · exact hcases.imp (fun ho => ho _ le_rfl) fun hf k hk => hf k stored hk (hread k hk)
    | writing vectors =>
      rw [hphase] at hreads
      unfold Reads at hreads ⊢
      rw [hran]
      rcases hreads with hcrossed | hread
      · exact .inl (hover _ hcrossed)
      · refine hcases.imp (fun ho => ho _ (Nat.sub_le _ _)) fun hf k hk => ?_
        obtain ⟨stored, hv, hf'⟩ := hread k hk
        exact ⟨stored, hv, hf k stored hk hf'⟩

/-- The payload of a row that leaves the queue is recorded, or it is the one that was read. -/
theorem valid_complete (h : Inv x w.state) {row q : PendingRow} (hv : Valid w.state row)
    {t : World D V} (hqueue : t.queue = complete w.state.queue q.restaurantId q.payload)
    (hqueued : t.queued = w.state.queued) :
    (∃ a ∈ completing w.state.queue q, a.Completes row) ∨ Valid t row := by
  have hlatest : t.latest row.restaurantId = w.state.latest row.restaurantId := by
    unfold World.latest
    rw [hqueued]
  rcases hv with hfind | hl
  · by_cases hgone : t.queue.find row.restaurantId = none
    · rw [hqueue] at hgone
      rcases find_of_find_complete hgone with hnone | ⟨hr, old, hold, hrid, hp⟩
      · exact absurd hnone hfind
      · by_cases hsame : q.payload = row.payload
        · have hl := h.queue old hold
          rw [hrid, hp, hsame, ← hr] at hl
          exact .inr (.inr (hlatest.trans hl))
        · refine .inl ⟨.completed q.restaurantId q.payload, ?_, hr.symm, hsame⟩
          have hfound := Table.mem_iff_find.mp hold
          rw [hrid] at hfound
          simp [completing, hfound, hp]
    · exact .inr (.inl hgone)
  · exact .inr (.inr (hlatest.trans hl))

/-- A payload that is staged: the restaurant is queued. -/
theorem valid_handle {r : String} {p : Payload} {now debounce : ℕ} {u t : World D V}
    (hv : Valid u row) (hqueue : t.queue = stage u.queue r p now debounce)
    (hqueued : t.queued = (r, p) :: u.queued) : Valid t row := by
  unfold Valid at hv ⊢
  rw [hqueue, find_stage]
  by_cases hr : r = row.restaurantId
  · rw [if_pos hr]
    exact .inl nofun
  · rw [if_neg hr]
    refine hv.imp_right fun hl => ?_
    have ht : t.latest row.restaurantId = u.latest row.restaurantId := by
      unfold World.latest
      rw [hqueued, List.find?_cons_of_neg (by simpa using hr)]
    exact ht.trans hl

variable [DecidableEq D]

theorem passes_setPass_self {u : World D V} {pass : Pass V} : (u.setPass d pass).passes d = pass :=
  Function.update_self ..

theorem passes_setPass_of_ne {u : World D V} {pass : Pass V} {d' : D} (h : d' ≠ d) :
    (u.setPass d pass).passes d' = u.passes d' := Function.update_of_ne h ..

/-- What a drain writes, as it goes on. -/
theorem write_eq (h : Watchful x w) (hok : Ahead x w (.write d))
    (hs : step x w.state (.write d) = some w'.state) :
    ∃ row rest k stored, (w.state.passes d).rows = row :: rest ∧
      x.chunk row.restaurantId row.payload = some k ∧
      (row.restaurantId, row.payload) ∈ w.state.queued ∧
      Stands w.state.index.restaurants (x.vectors k stored) k.restaurant ∧
      (∀ c ∈ k.items, Stands w.state.index.items (x.vectors k stored) c) ∧
      w'.state = (w.state.write row k (x.vectors k stored)).setPass d ⟨rest, .reading⟩ := by
  have hintact := intact_of_ahead h hok
  have hearned := h.inv.passes d
  simp only [step] at hs
  rcases hpass : w.state.passes d with ⟨_ | ⟨row, rest⟩, _ | stored | vectors⟩ <;>
    rw [hpass] at hs <;> try cases hs
  obtain ⟨k, hk, hw⟩ := Option.map_eq_some_iff.mp hs
  rw [hpass] at hearned
  obtain ⟨stored, rfl⟩ := hearned.vectors row rfl vectors rfl k hk
  have hintact : ∀ row ∈ (w.state.passes d).rows.head?,
      ∀ vectors ∈ (w.state.passes d).phase.vectors, Uncrossed x w.state row vectors := hintact
  rw [hpass] at hintact
  obtain ⟨hself, hitems, -⟩ := hintact row rfl _ rfl k hk
  exact ⟨row, rest, k, stored, rfl, hk, hearned.rows row List.mem_cons_self, hself, hitems, hw.symm⟩

/-- **A drain while another one writes.** -/
theorem current_beside_write (h : Watchful x w) {d' : D} (hd : d ≠ d')
    (hok : Ahead x w (.write d'))
    (hstep : watch.watched (step x) w (.write d') = some w') : Current x w' d := by
  obtain ⟨row', rest, k', stored', hrows, hk', hqueued, hself, hitems, hstate⟩ :=
    write_eq h hok (Watch.step_of_watched hstep)
  obtain ⟨hran, hsince⟩ := Watch.waits_of_watched (k := d) hstep nofun
    (fun hr => hd (Option.some.inj hr).symm)
  have hcommits : watch.commits w.state (.write d') =
      .written row'.restaurantId row'.payload :: completing w.state.queue row' := by
    show committed w.state (.write d') = _
    simp only [committed, hrows]
  rw [hcommits] at hsince
  refine (h.current d).frame ?_ hran (fun n a ha => (hsince n a).mpr (.inl ha)) ?_ ?_
  · rw [hstate, passes_setPass_of_ne hd]
    rfl
  · intro row hrow hv
    refine (valid_complete h.inv (t := w'.state) hv (q := row') ?_ ?_).imp_left ?_
    · rw [hstate]
      rfl
    · rw [hstate]
      rfl
    · rintro ⟨a, ha, hcompletes⟩
      exact ⟨a, (hsince 0 a).mpr (.inr ⟨Nat.zero_le _, List.mem_cons_of_mem _ ha⟩), hcompletes⟩
  · intro row hrow
    by_cases hother : row'.restaurantId = row.restaurantId ∧ row'.payload ≠ row.payload
    · exact .inl fun n hn => ⟨_, (hsince n _).mpr (.inr ⟨hn, List.mem_cons_self⟩), hother⟩
    · refine .inr fun k stored hk hfresh => ?_
      rw [hstate]
      exact fresh_replace hfresh h.inv.sound hk hk'
        (h.inv.clear _ ((h.inv.passes d).rows row hrow)) (h.inv.clear _ hqueued) hself hitems
        fun hr => by_contra fun hp => hother ⟨hr, hp⟩

/-- What is queued has chunks: nothing is discarded. -/
theorem not_discard (h : Inv x w.state) {t : World D V} :
    step x w.state (.discard d) ≠ some t := by
  intro hs
  simp only [step] at hs
  rcases hpass : w.state.passes d with ⟨_ | ⟨row, rest⟩, _ | stored | vectors⟩ <;>
    rw [hpass] at hs <;> try cases hs
  have hqueued := (h.passes d).rows row (by rw [hpass]; exact List.mem_cons_self)
  obtain ⟨k, hk⟩ := @exists_chunk x.lower x.digest row.restaurantId _ (h.indexable _ hqueued)
  have hchunk : x.chunk row.restaurantId row.payload = some k := hk
  simp only [hchunk, reduceCtorEq] at hs

/-- The steps that neither write nor queue change one pass. -/
theorem setPass_of_step (hs : step x w.state e = some w'.state)
    (he : ∃ d', e = .readTexts d' ∨ e = .embed d' ∨ e = .fail d' ∨
      ∃ now limit rows, e = .due d' now limit rows) :
    ∃ d' pass, (watch (V := V).begins w.state e = some d' ∨ watch (V := V).runs e = some d') ∧
      w'.state = w.state.setPass d' pass := by
  obtain ⟨d', rfl | rfl | rfl | ⟨now, limit, rows, rfl⟩⟩ := he
  · simp only [step] at hs
    rcases hpass : w.state.passes d' with ⟨_ | ⟨row, rest⟩, _ | stored | vectors⟩ <;>
      rw [hpass] at hs <;> try cases hs
    obtain ⟨k, -, hw⟩ := Option.map_eq_some_iff.mp hs
    exact ⟨d', _, .inr rfl, hw.symm⟩
  · simp only [step] at hs
    rcases hpass : w.state.passes d' with ⟨_ | ⟨row, rest⟩, _ | stored | vectors⟩ <;>
      rw [hpass] at hs <;> try cases hs
    obtain ⟨k, -, hw⟩ := Option.map_eq_some_iff.mp hs
    exact ⟨d', _, .inr rfl, hw.symm⟩
  · exact ⟨d', _, .inr rfl, (Option.some.inj hs).symm⟩
  · simp only [step] at hs
    split at hs
    · exact ⟨d', _, .inl rfl, (Option.some.inj hs).symm⟩
    · cases hs

/-- **A drain while anything else happens.** -/
theorem current_beside (h : Watchful x w) (hok : Ahead x w e)
    (hstep : watch.watched (step x) w e = some w')
    (hbegins : watch.begins w.state e ≠ some d) (hruns : watch (V := V).runs e ≠ some d) :
    Current x w' d := by
  have hs := Watch.step_of_watched hstep
  obtain ⟨hran, hsince⟩ := Watch.waits_of_watched hstep hbegins hruns
  have hkeep : ∀ n a, w.Since d n a → w'.Since d n a := fun n a ha => (hsince n a).mpr (.inl ha)
  have hset : (∃ d', e = .readTexts d' ∨ e = .embed d' ∨ e = .fail d' ∨
      ∃ now limit rows, e = .due d' now limit rows) → Current x w' d := by
    intro he
    obtain ⟨d', pass, hactor, hstate⟩ := setPass_of_step hs he
    have hd : d ≠ d' := by
      rintro rfl
      exact hactor.elim hbegins hruns
    refine (h.current d).frame ?_ hran hkeep ?_ ?_ <;> rw [hstate]
    · exact passes_setPass_of_ne hd
    · exact fun row _ hv => .inr hv
    · exact fun row _ => .inr fun k stored _ hf => hf
  cases e with
  | handle r p now debounce =>
    simp only [step] at hs
    split at hs
    · have hstate := (Option.some.inj hs).symm
      refine (h.current d).frame ?_ hran hkeep (fun row _ hv => .inr ?_) ?_ <;> rw [hstate]
      · exact valid_handle hv rfl rfl
      · exact fun row _ => .inr fun k stored _ hf => hf
    · have hstate := (Option.some.inj hs).symm
      refine (h.current d).frame ?_ hran hkeep ?_ ?_ <;> rw [hstate]
      · exact fun row _ hv => .inr hv
      · exact fun row _ => .inr fun k stored _ hf => hf
  | due d' now limit rows => exact hset ⟨d', .inr (.inr (.inr ⟨_, _, _, rfl⟩))⟩
  | discard d' => exact absurd hs (not_discard h.inv)
  | readTexts d' => exact hset ⟨d', .inl rfl⟩
  | embed d' => exact hset ⟨d', .inr (.inl rfl)⟩
  | write d' =>
    exact current_beside_write h (fun hd => hruns (congrArg some hd.symm)) hok hstep
  | fail d' => exact hset ⟨d', .inr (.inr (.inl rfl))⟩

/-- A drain goes on with the row at its head. -/
theorem Current.advance (h : Current x w d) {row : PendingRow} {rest : List PendingRow}
    {phase phase' : Phase V} (hpass : w.state.passes d = ⟨row :: rest, phase⟩)
    (hstate : w'.state = w.state.setPass d ⟨row :: rest, phase'⟩)
    (hsince : ∀ n a, w'.Since d n a ↔ w.Since d n a) (hreads : Reads x w' d row phase') :
    Current x w' d := by
  obtain ⟨hdistinct, hvalid, -⟩ := h
  rw [hpass] at hdistinct hvalid
  have hpass' : w'.state.passes d = ⟨row :: rest, phase'⟩ := by rw [hstate, passes_setPass_self]
  refine ⟨?_, ?_, ?_⟩ <;> rw [hpass']
  · exact hdistinct
  · intro row' hrow'
    unfold Discharged
    simp only [hsince]
    rw [hstate]
    exact hvalid row' hrow'
  · rintro _ ⟨⟩
    exact hreads

/-- **A drain after a session of its own.** -/
theorem current_self (hlower : ∀ s, OneLine s → OneLine (x.lower s)) (h : Watchful x w)
    (hok : Ahead x w e) (hstep : watch.watched (step x) w e = some w')
    (hd : watch.begins w.state e = some d ∨ watch (V := V).runs e = some d) : Current x w' d := by
  have hs := Watch.step_of_watched hstep
  cases e with
  | handle => rcases hd with hd | hd <;> cases hd
  | due d' now limit rows =>
    obtain rfl : d' = d := Option.some.inj (hd.resolve_right (by rintro ⟨⟩))
    simp only [step] at hs
    split at hs
    · next hdue =>
      have hstate := (Option.some.inj hs).symm
      obtain ⟨-, hrows, hnodup, -⟩ := hdue
      refine ⟨?_, ?_, ?_⟩ <;> rw [hstate, passes_setPass_self]
      · refine hnodup.map_on fun a ha b hb hab => ?_
        exact Table.eq_of_key (hrows a ha).1 (hrows b hb).1 hab
      · intro row hrow
        refine .inr (.inl ?_)
        show w.state.queue.find row.restaurantId ≠ none
        rw [Table.mem_iff_find.mp (hrows row hrow).1]
        rintro ⟨⟩
      · exact fun _ _ => trivial
    · cases hs
  | discard d' => exact absurd hs (not_discard h.inv)
  | readTexts d' =>
    obtain rfl : d' = d := Option.some.inj (hd.resolve_left (by rintro ⟨⟩))
    obtain ⟨-, hsince⟩ := Watch.runs_of_watched hstep (by rintro ⟨⟩) rfl
    simp only [step] at hs
    rcases hpass : w.state.passes d' with ⟨_ | ⟨row, rest⟩, _ | stored | vectors⟩ <;>
      rw [hpass] at hs <;> try cases hs
    obtain ⟨k, -, hw⟩ := Option.map_eq_some_iff.mp hs
    refine (h.current d').advance hpass hw.symm hsince (.inr fun k hk => ?_)
    rw [← hw]
    exact fresh_contentsFor hlower h.kinds hk
  | embed d' =>
    obtain rfl : d' = d := Option.some.inj (hd.resolve_left (by rintro ⟨⟩))
    obtain ⟨hran, hsince⟩ := Watch.runs_of_watched hstep (by rintro ⟨⟩) rfl
    simp only [step] at hs
    rcases hpass : w.state.passes d' with ⟨_ | ⟨row, rest⟩, _ | stored | vectors⟩ <;>
      rw [hpass] at hs <;> try cases hs
    obtain ⟨k, hk, hw⟩ := Option.map_eq_some_iff.mp hs
    have hreads := (h.current d').reads
    rw [hpass] at hreads
    refine (h.current d').advance hpass hw.symm hsince ?_
    rcases hreads row rfl with ⟨a, ha, hp⟩ | hread
    · refine .inl ⟨a, ?_, hp⟩
      rw [hran, Nat.add_sub_cancel]
      exact (hsince _ a).mpr ha
    · refine .inr fun k' hk' => ?_
      obtain rfl : k' = k := Option.some.inj (hk'.symm.trans hk)
      refine ⟨stored, rfl, ?_⟩
      rw [← hw]
      exact hread k' hk'
  | write d' =>
    obtain rfl : d' = d := Option.some.inj (hd.resolve_left (by rintro ⟨⟩))
    obtain ⟨-, hsince⟩ := Watch.runs_of_watched hstep (by rintro ⟨⟩) rfl
    obtain ⟨row, rest, k, stored, hrows, -, -, -, -, hstate⟩ := write_eq h hok hs
    obtain ⟨hdistinct, hvalid, -⟩ := h.current d'
    rw [hrows] at hdistinct hvalid
    obtain ⟨hfirst, hrest⟩ := List.nodup_cons.mp hdistinct
    refine ⟨?_, ?_, ?_⟩ <;> rw [hstate, passes_setPass_self]
    · exact hrest
    · intro row' hrow'
      unfold Discharged
      simp only [hsince]
      refine (hvalid row' (List.mem_cons_of_mem _ hrow')).imp_right fun hv => ?_
      -- the rest of the pass is about other restaurants
      rcases valid_complete h.inv hv (q := row) (t := w'.state) (by rw [hstate]; rfl)
        (by rw [hstate]; rfl) with ⟨a, ha, hcompletes⟩ | hv'
      · unfold completing at ha
        split at ha
        · cases List.mem_singleton.mp ha
          exact absurd (List.mem_map.mpr ⟨row', hrow', hcompletes.1.symm⟩) hfirst
        · cases ha
      · rwa [hstate] at hv'
    · exact fun _ _ => trivial
  | fail d' =>
    obtain rfl : d' = d := Option.some.inj (hd.resolve_left (by rintro ⟨⟩))
    refine ⟨?_, ?_, ?_⟩ <;> rw [← Option.some.inj hs, passes_setPass_self]
    · exact List.nodup_nil
    · exact fun row hrow => absurd hrow List.not_mem_nil
    · rintro row ⟨⟩

/-- **One step of an undisturbed run.** -/
theorem watchful_step (hlower : ∀ s, OneLine s → OneLine (x.lower s)) (h : Watchful x w)
    (hok : Ahead x w e) (hstep : watch.watched (step x) w e = some w') : Watchful x w' := by
  have hs := Watch.step_of_watched hstep
  refine ⟨inv_step h.inv (intact_of_ahead h hok) hs, ?_, fun d => ?_⟩
  · cases e with
    | write d =>
      obtain ⟨row, rest, k, stored, -, hk, hqueued, hself, hitems, hstate⟩ := write_eq h hok hs
      rw [hstate]
      exact kinds_replace hlower h.kinds h.inv.sound hk (h.inv.clear _ hqueued) hself hitems
    | discard d => exact absurd hs (not_discard h.inv)
    | handle r p now debounce =>
      simp only [step] at hs
      split at hs <;> rw [← Option.some.inj hs] <;> exact h.kinds
    | due d | readTexts d | embed d | fail d =>
      obtain ⟨_, _, -, hstate⟩ := setPass_of_step hs ⟨d, by simp⟩
      rw [hstate]
      exact h.kinds
  · by_cases hd : watch.begins w.state e = some d ∨ watch (V := V).runs e = some d
    · exact current_self hlower h hok hstep hd
    · exact current_beside h hok hstep (fun hb => hd (.inl hb)) fun hr => hd (.inr hr)

end

/-! ### Runs -/

theorem watchful_start : Watchful x (.start .init : Watched (World D V) D Commit) where
  inv := inv_init
  kinds := ⟨fun _ h => absurd h Table.not_mem_empty, fun _ h => absurd h Table.not_mem_empty⟩
  current _ := ⟨List.nodup_nil, fun _ h => absurd h List.not_mem_nil, fun _ h => nomatch h⟩

variable [DecidableEq D]

theorem watchful_of_run (hlower : ∀ s, OneLine s → OneLine (x.lower s)) {is : List (Event D)}
    (h : Run (watch.watched (step x)) (Ahead x) (.start .init) is w) : Watchful x w :=
  h.invariant watchful_start fun _ _ _ hw hok hs => watchful_step hlower hw hok hs

/-- **Convergence**: as long as no drain is overtaken, the index has, of every restaurant that is
not queued, the chunks of what was queued last, each with the vector of its text. -/
theorem holds_of_run (hlower : ∀ s, OneLine s → OneLine (x.lower s)) {is : List (Event D)}
    (h : Run (watch.watched (step x)) (Ahead x) (.start .init) is w) {r : String}
    (hr : w.state.queue.find r = none) :
    Holds x.embed w.state.index r (w.state.known x r) := (watchful_of_run hlower h).inv.holds r hr

/-- Texts that are their own digests and vectors. -/
def verbatim : Recipe String := ⟨fun s => s, fun s => s, fun s => s⟩

def seafood (name : String) : Payload where
  city := some "Oslo"
  name := some name
  categories := [⟨some "Mains", [{ id := some "d1", name := some "Reker", tags := ["b", "a"] }]⟩]

def seafoodRow (name : String) : PendingRow := ⟨"r1", seafood name, 5, 0⟩

/-- Two drains index one payload, a session of the one between two of the other; the restaurant is
renamed, and is queued until one of them indexes that too. -/
def sideBySide : List (Event Bool) :=
  [.handle "r1" (seafood "Fisk") 0 5, .due true 5 10 [seafoodRow "Fisk"],
    .due false 5 10 [seafoodRow "Fisk"], .readTexts true, .readTexts false, .embed false,
    .embed true, .write false, .handle "r1" (seafood "Fisk og vin") 6 5, .write true,
    .due false 11 10 [⟨"r1", seafood "Fisk og vin", 11, 6⟩], .readTexts false, .embed false,
    .write false]

theorem holds_sideBySide : ∃ w : Watched (World Bool String) Bool Commit,
    w.state.queue.find "r1" = none ∧
      Holds verbatim.embed w.state.index "r1" (w.state.known verbatim "r1") := by
  obtain ⟨w, hrun, hnone⟩ : ∃ w : Watched (World Bool String) Bool Commit,
      Run (watch.watched (step verbatim)) (Ahead verbatim) (.start .init) sideBySide w ∧
        decide (w.state.queue.find "r1" = none) = true := exists_run_of_execOk (by decide +kernel)
  exact ⟨w, of_decide_eq_true hnone, holds_of_run (fun _ h => h) hrun (of_decide_eq_true hnone)⟩

/-- While the first drain embeds, the restaurant is renamed, and a second drain indexes that and
completes the row. -/
def twoPasses : List (Event Bool) :=
  [.handle "r1" (seafood "Fisk") 0 5, .due true 5 10 [seafoodRow "Fisk"], .readTexts true,
    .embed true, .handle "r1" (seafood "Fisk og vin") 6 5,
    .due false 6 10 [seafoodRow "Fisk og vin"], .readTexts false, .embed false, .write false,
    .write true]

/-- **Overtaken**: the first drain then writes the old name, and finds nothing to complete. -/
theorem overtaken : ∃ w : World Bool String, Run (step verbatim) Always World.init twoPasses w ∧
    w.queue.find "r1" = none ∧ (∀ d, (w.passes d).rows = []) ∧
      ¬ Holds verbatim.embed w.index "r1" (w.known verbatim "r1") := by
  obtain ⟨w, hrun, hend⟩ := @exists_run_of_execOk (World Bool String) (Event Bool)
    (step verbatim) Always World.init twoPasses _
    (fun w => decide (w.queue.find "r1" = none ∧ (∀ d, (w.passes d).rows = []) ∧
      ∃ k ∈ w.known verbatim "r1",
        k.restaurant.row k.restaurant.content ∉ w.index.restaurants.rows))
    (by decide +kernel)
  obtain ⟨hnone, hidle, k, hk, hmissing⟩ := of_decide_eq_true hend
  exact ⟨w, hrun, hnone, hidle, fun h => hmissing ((h.restaurant _).mpr ⟨k, hk, rfl⟩).1⟩

end Assistant
