/-
Does the second write of an accept come in time?

* `overwritten`, `watch` — the rows that `put_offering` writes, recorded beside the operations in
  flight;
* `Fits` — the row of the offer whose lock an accept converts;
* `Undisturbed` — no `put_offering` of the order between the two writes of an accept, nor between
  the read of a cancel and its write;
* `Ready`, `Informed`, `Timely` — what an accept finds at its second write, and a cancel at its
  own, as long as nobody overwrites the row;
* `assignment_agreement` — in every undisturbed run the tables agree whenever nothing is in
  flight, and an accept answered `assigned` has its row;
* `tables_disagree` — a second offer for the same order makes them disagree.
-/
import SmartFoodOps.Dispatch.Expiry
import SmartFoodOps.Lib.Overlap

open Machine

namespace Dispatch

/-! ### Clean-ups -/

section

variable {cap : ℕ} {fresh offer : OfferId} {t t' : Tables} {op op' : Op} {rider : RiderId}
  {d : OrderId}

/-- The row will not move any more. -/
def Tables.Over (t : Tables) (d : OrderId) : Prop :=
  ∃ q, t.deliveries d = some q ∧ q.terminal

theorem over_opStep (h : opStep cap fresh t op = some (t', op')) (ho : t.Over d) : t'.Over d := by
  obtain ⟨q, hq, hterminal⟩ := ho
  rcases opStep_row (d := d) h with hrow | ⟨row, -, hmv⟩
  · exact ⟨q, hrow.trans hq, hterminal⟩
  · have hno : q.state ≠ .offering ∧ q.state ≠ .assigned ∧ q.state ≠ .pickedUp := by
      rcases hterminal with hs | hs <;> rw [hs] <;> decide
    cases hmv with
    | put hrow => exact absurd (hrow q hq) hno.1
    | assign hq' hs | cancel hq' hs =>
      cases hq.symm.trans hq'
      exact absurd hs hno.1
    | carried hq' hs =>
      cases hq.symm.trans hq'
      rcases hs with ⟨hs, -⟩ | ⟨hs, -⟩
      · exact absurd hs hno.2.1
      · exact absurd hs hno.2.2

/-- Where the clean-up of a revoke comes from. -/
theorem opStep_revokes (h : opStep cap fresh t op = some (t', op'))
    (hop : op' = .finishUnassigned d rider) :
    ∃ q, t.deliveries d = some q ∧ q.state = .assigned := by
  subst hop
  cases does h with
  | unassigns hw =>
    obtain ⟨row, hrow, -⟩ := onDelivery_applied (Prod.ext rfl hw)
    obtain ⟨q, hq, hs, -⟩ := DeliveryStore.unassign_eq hrow
    exact ⟨q, hq, hs⟩

/-- A clean-up is that of a revoke, or the row is over. -/
theorem opStep_clears (h : opStep cap fresh t op = some (t', op')) (hc : op'.Clears rider d) :
    op' = .finishUnassigned d rider ∨ t'.Over d ∨
      ∃ seen, op = .releaseCancelled d seen ∧ op.Clears rider d := by
  have hover : ∀ {e write}, (t.onDelivery e write).2 = true →
      (∀ row, write (t.deliveries e) = some row → row.terminal) → (t.onDelivery e write).1.Over e := by
    intro e write hw hterminal
    obtain ⟨row, hrow, he⟩ : ∃ row, write (t.deliveries e) = some row ∧
        (t.onDelivery e write).1 = t.setDelivery e row := onDelivery_applied (Prod.ext rfl hw)
    rw [he]
    exact ⟨row, Function.update_self .., hterminal row hrow⟩
  cases does h with
  | unassigns =>
    obtain ⟨rfl, rfl⟩ := hc
    exact .inl rfl
  | cancelsOffering hw | cancelsAssigned hw =>
    obtain ⟨-, rfl⟩ := hc
    refine .inr (.inl (hover hw fun row hrow => ?_))
    obtain ⟨q, -, -, rfl⟩ := DeliveryStore.cancelFrom_eq hrow
    exact .inr rfl
  | @releasesCancelled e seen =>
    obtain ⟨hr, rfl⟩ := hc
    exact .inr (.inr ⟨seen, rfl, hr, rfl⟩)
  | marksDelivered hw =>
    obtain ⟨-, rfl⟩ := hc
    refine .inr (.inl (hover hw fun row hrow => ?_))
    obtain ⟨q, -, -, -, rfl⟩ := DeliveryStore.markDelivered_eq hrow
    exact .inl rfl
  | replaysDelivered hreplay =>
    obtain ⟨-, rfl⟩ := hc
    obtain ⟨q, hq, hs⟩ := Option.any_eq_true _ _ |>.mp hreplay
    simp only [Bool.and_eq_true, List.contains_cons, List.contains_nil, Bool.or_false,
      beq_iff_eq] at hs
    exact .inr (.inl ⟨q, hq, .inl hs.2⟩)
  | _ => exact hc.elim

/-- A clean-up goes on, or the order is out of the set. -/
theorem clears_opStep (h : opStep cap fresh t op = some (t', op')) (hc : op.Clears rider d) :
    op'.Clears rider d ∨ ¬ t'.Active rider d := by
  cases does h with
  | releasesCancelled => exact .inl hc
  | finishesUnassigned | finishesCancelled | finishesDelivered =>
    exact .inr fun ha => (active_of_finishDelivery.mp ha).2 hc
  | _ => exact hc.elim

end

/-! ### Rows that are overwritten -/

/-- The order whose row a `put_offering` writes. -/
def overwritten (s : System) : Event → List OrderId
  | .run pid _ =>
    match s.ops[pid]? with
    | some (.putOffering order rider offer) =>
      if (s.tables.putOffering order rider offer).2 then [order] else []
    | _ => []
  | _ => []

def watch : Watch System Event ℕ OrderId where
  begins s := fun
    | .start _ => some s.ops.length
    | _ => none
  runs := fun
    | .run pid _ => some pid
    | _ => none
  commits := overwritten

theorem overwritten_of_put {s : System} {pid : ℕ} {fresh offer : OfferId} {rider : RiderId}
    {d : OrderId} (hop : s.ops[pid]? = some (.putOffering d rider offer))
    (hrow : ∀ q ∈ s.tables.deliveries d, q.state = .offering) :
    d ∈ overwritten s (.run pid fresh) := by
  have hput : (s.tables.putOffering d rider offer).2 = true := by
    unfold Tables.putOffering Tables.onDelivery
    cases hd : s.tables.deliveries d with
    | none => rfl
    | some q => simp [DeliveryStore.putOffering, hrow q hd]
  simp only [overwritten, hop, hput, if_true]
  exact List.mem_singleton_self d

/-- The row of the order carries the offer.  It is OFFERING, and no revoke of the rider is between
its two writes; or it is CANCELLED, and the clean-up is still to come. -/
def Fits (s : System) (rider : RiderId) (offer : OfferId) (order : OrderId) : Prop :=
  ∃ row ∈ s.tables.deliveries order, row.offerId = offer ∧
    if row.state = .cancelled then Clearing s rider order
    else Op.finishUnassigned order rider ∉ s.ops

/-- The row of the order is in the state that a write expects. -/
def Tables.Stands (t : Tables) (order : OrderId) (expected : DeliveryState) : Prop :=
  ∃ row ∈ t.deliveries order, row.state = expected

/-- An accept that converts its lock finds the row of the offer, and its second write comes before
the next `put_offering` of the order; a cancel that writes has read the row after the last
`put_offering` of the order. -/
def Op.Undisturbed (w : Watched System ℕ OrderId) (pid : ℕ) : Op → Prop
  | .accept rider offer order =>
    (w.state.tables.riders rider).locks offer = true → Fits w.state rider offer order
  | .assign _ _ order => ¬ w.Since pid 1 order
  | .cancelOffering order _ => w.state.tables.Stands order .offering → ¬ w.Since pid 1 order
  | .cancelAssigned order _ => w.state.tables.Stands order .assigned → ¬ w.Since pid 1 order
  | _ => True

def Undisturbed (w : Watched System ℕ OrderId) : Event → Prop
  | .run pid _ => ∀ op ∈ w.state.ops[pid]?, op.Undisturbed w pid
  | _ => True

section

variable (s : System) (t : Tables) (w : Watched System ℕ OrderId)

instance (rider : RiderId) (offer : OfferId) (order : OrderId) :
    Decidable (Fits s rider offer order) :=
  inferInstanceAs (Decidable (∃ row ∈ s.tables.deliveries order, _ ∧ _))

instance (order : OrderId) (expected : DeliveryState) : Decidable (t.Stands order expected) :=
  inferInstanceAs (Decidable (∃ row ∈ t.deliveries order, _))

instance (pid : ℕ) (op : Op) : Decidable (op.Undisturbed w pid) := by
  apply @Op.casesOn _ op <;> intros <;> unfold Op.Undisturbed <;> infer_instance

instance : ∀ e : Event, Decidable (Undisturbed w e)
  | .run _ _ => inferInstanceAs (Decidable (∀ op ∈ _, _))
  | .start _ | .online _ | .offline _ => inferInstanceAs (Decidable True)

end

/-! ### What the second writes find -/

/-- The row names the rider, under this offer: it is OFFERING, and the order is in the rider's set
to stay; or it is CANCELLED, and the order is going to leave the set. -/
def Ready (s : System) (rider : RiderId) (offer : OfferId) (order : OrderId) : Prop :=
  ∃ row, s.tables.deliveries order = some row ∧ row.riderId = rider ∧ row.offerId = offer ∧
    (row.state = .offering ∧ s.tables.Active rider order ∧ ¬ Clearing s rider order ∨
      row.state = .cancelled ∧ (s.tables.Active rider order → Clearing s rider order))

/-- The row that a cancel has read names the rider that the row names. -/
def Seen (t : Tables) (order : OrderId) (seen : Option DeliveryRow) : Prop :=
  ∀ row, t.deliveries order = some row → ∃ r, seen = some r ∧ r.riderId = row.riderId

/-- What an operation knows, unless the row has been overwritten. -/
def Informed (w : Watched System ℕ OrderId) (pid : ℕ) : Op → Prop
  | .assign rider offer order =>
    1 ≤ w.ran pid ∧ (w.Since pid 1 order ∨ Ready w.state rider offer order)
  | .cancelOffering order seen | .cancelAssigned order seen =>
    1 ≤ w.ran pid ∧ (w.Since pid 1 order ∨ Seen w.state.tables order seen)
  | _ => True

/-- **The invariant of an undisturbed run.** -/
structure Timely (w : Watched System ℕ OrderId) : Prop where
  minted : Minted w.state
  held : AllHeld w.state
  cleaning : ∀ op ∈ w.state.ops, ∀ rider order, op.Clears rider order →
    op = .finishUnassigned order rider ∨ w.state.tables.Over order
  informed : ∀ pid op, w.state.ops[pid]? = some op → Informed w pid op

section

variable {cap pid : ℕ} {fresh offer : OfferId} {w w' : Watched System ℕ OrderId} {s : System}
  {t : Tables} {op op' : Op} {rider : RiderId} {d : OrderId} {e : Event}

/-- **What an undisturbed step finds**: no write of it comes too late. -/
theorem sound_of_undisturbed (h : Timely w) (hok : Undisturbed w e) : Sound w.state e := by
  cases e with
  | run pid fresh =>
    intro op hop
    have hinf := h.informed pid op hop
    have hund := hok op hop
    cases op with
    | assign rider offer order =>
      obtain ⟨row, hrow, hr, ho, hcases⟩ := hinf.2.resolve_left hund
      refine ⟨row, hrow, hr, ?_⟩
      split
      · next hs =>
        rcases hcases with ⟨-, ha, hc⟩ | ⟨hc, -⟩
        · exact ⟨ha, hc⟩
        · rw [hs.1] at hc
          cases hc
      · next hs =>
        rcases hcases with ⟨hst, -⟩ | ⟨-, hc⟩
        · exact absurd ⟨hst, ho⟩ hs
        · exact fun ha => .inr (hc ha)
    | cancelAssigned order seen =>
      intro row hrow hs
      obtain ⟨r, hr, hname⟩ := hinf.2.resolve_left (hund ⟨row, hrow, hs⟩) row hrow
      exact ⟨r, hr, hname⟩
    | _ => trivial
  | _ => trivial

/-- The row of an offer that has not been assigned under is OFFERING or CANCELLED. -/
theorem Minted.standing (hm : Minted s) {q : DeliveryRow} (hq : s.tables.deliveries d = some q)
    (hno : ¬ Converted s q.offerId) : q.state = .offering ∨ q.state = .cancelled := by
  have htaken : ¬ q.taken := fun ht => hno (hm.taken hq ht)
  cases hs : q.state with
  | offering => exact .inl rfl
  | cancelled => exact .inr rfl
  | assigned => exact absurd (.inl hs) htaken
  | pickedUp => exact absurd (.inr (.inl hs)) htaken
  | delivered => exact absurd (.inr (.inr hs)) htaken

/-! ### One step -/

theorem Informed.mono (h : Informed w pid op) (hran : w'.ran pid = w.ran pid)
    (hsince : ∀ d, w.Since pid 1 d → w'.Since pid 1 d)
    (hready : ∀ rider offer d, op = .assign rider offer d → Ready w.state rider offer d →
      w'.Since pid 1 d ∨ Ready w'.state rider offer d)
    (hseen : ∀ d seen, Seen w.state.tables d seen →
      1 ≤ w.ran pid → w'.Since pid 1 d ∨ Seen w'.state.tables d seen) : Informed w' pid op := by
  cases op with
  | assign rider offer order =>
    exact ⟨hran ▸ h.1, h.2.elim (fun hs => .inl (hsince _ hs)) (hready _ _ _ rfl)⟩
  | cancelOffering order seen | cancelAssigned order seen =>
    exact ⟨hran ▸ h.1, h.2.elim (fun hs => .inl (hsince _ hs)) fun hs => hseen _ _ hs h.1⟩
  | _ => trivial

/-- What the clean-ups of an order are, after a store call. -/
theorem clearing_set {ops : List Op} (hop : ops[pid]? = some op) :
    (∃ o ∈ ops.set pid op', o.Clears rider d) ↔
      op'.Clears rider d ∨ ∃ q, q ≠ pid ∧ ∃ o ∈ ops[q]?, o.Clears rider d := exists_op_set hop

/-- **The first write of an accept**: the row it fits names the rider. -/
theorem ready_of_accept (h : Timely w) {made : OfferId → Option (RiderId × OrderId)}
    (hop : w.state.ops[pid]? = some (.accept rider offer d))
    (hok : (Op.accept rider offer d).Undisturbed w pid)
    (hw : w.state.tables.accept rider offer d = (t, true)) :
    Ready ⟨t, made, w.state.ops.set pid (.assign rider offer d)⟩ rider offer d := by
  -- the lock was the offer's
  obtain ⟨e, hlock⟩ : ∃ e, w.state.tables.Locked rider offer e := by
    rcases w.state.tables.onRider_cases rider (fun s => s.accept offer d) with ⟨s, hs, -⟩ | ⟨-, he⟩
    · exact (RiderState.accept_eq hs).1
    · cases he.symm.trans hw
  obtain ⟨row, hrow, rfl, hfits⟩ := hok (RiderState.locks_iff.mpr ⟨e, hlock⟩)
  have hname : row.riderId = rider := by
    have hm := h.minted.row hrow
    rw [h.minted.locked hlock] at hm
    exact congrArg Prod.fst (Option.some.inj hm).symm
  have hdeliveries : t.deliveries = w.state.tables.deliveries := by
    have hk := w.state.tables.onRider_cases rider (fun s => s.accept row.offerId d)
    rcases hk with ⟨s, -, he⟩ | ⟨-, he⟩ <;> cases he.symm.trans hw
    rfl
  have hactive := (accept_converts hw rider d).1.mpr (.inr ⟨rfl, rfl⟩)
  have hclearing : (∃ o ∈ w.state.ops.set pid (.assign rider row.offerId d), o.Clears rider d) ↔
      Clearing w.state rider d := by
    rw [clearing_set hop, Clearing, exists_op_of_getElem? hop]
    exact or_congr_left Iff.rfl
  refine ⟨row, hdeliveries ▸ hrow, hname, rfl, ?_⟩
  rcases h.minted.standing hrow fun hc => hc.1.2 rider e hlock with hs | hs
  · rw [hs] at hfits
    refine .inl ⟨hs, hactive, fun hc => ?_⟩
    obtain ⟨o, ho, hclears⟩ := hclearing.mp hc
    rcases h.cleaning o ho rider d hclears with rfl | ⟨q, hq, hterminal⟩
    · exact hfits ho
    · cases hrow.symm.trans hq
      rcases hterminal with ht | ht <;> rw [hs] at ht <;> cases ht
  · rw [if_pos hs] at hfits
    exact .inr ⟨hs, fun _ => hclearing.mpr hfits⟩

/-- What an operation knows after its own store call. -/
theorem informed_self (h : Timely w) (hop : w.state.ops[pid]? = some op)
    (hok : op.Undisturbed w pid) (hone : opStep cap fresh w.state.tables op = some (t, op'))
    (hstate : w'.state = ⟨t, record w.state.made op', w.state.ops.set pid op'⟩)
    (hran : w'.ran pid = w.ran pid + 1) (hsince : ∀ d, w'.Since pid 1 d ↔ w.Since pid 1 d) :
    Informed w' pid op' := by
  have hone' : 1 ≤ w'.ran pid := hran ▸ Nat.le_add_left 1 _
  cases does hone with
  | accepts hw =>
    refine ⟨hone', .inr ?_⟩
    rw [hstate]
    exact ready_of_accept h hop hok (Prod.ext rfl hw)
  | readsCancelled =>
    refine ⟨hone', .inr fun row hrow => ⟨row, ?_, rfl⟩⟩
    rwa [hstate] at hrow
  | @findsNoOffering e seen hw =>
    refine ⟨hone', (h.informed pid _ hop).2.imp (hsince e).mpr fun hs => ?_⟩
    rw [hstate, show (w.state.tables.cancelFrom e .offering).1 = w.state.tables from
      onDelivery_refused (Prod.ext rfl hw)]
    exact hs
  | _ => trivial

/-- **An accept between its writes**, while another operation makes a store call. -/
theorem Ready.run (hr : Ready w.state rider offer d) (h : Timely w) {q : ℕ} (hpid : pid ≠ q)
    (hp : w.state.ops[pid]? = some (.assign rider offer d)) (hop : w.state.ops[q]? = some op)
    (hok : op.Undisturbed w q) (hone : opStep cap fresh w.state.tables op = some (t, op'))
    (hno : d ∉ overwritten w.state (.run q fresh))
    {made : OfferId → Option (RiderId × OrderId)} :
    Ready ⟨t, made, w.state.ops.set q op'⟩ rider offer d := by
  obtain ⟨row, hrow, hname, hoffer, hcases⟩ := hr
  have hspent : Spent w.state offer := h.minted.assigning (List.mem_of_getElem? hp)
  have hclearing : ∀ rider d, Clearing w.state rider d ↔
      op.Clears rider d ∨ ∃ k, k ≠ q ∧ ∃ o ∈ w.state.ops[k]?, o.Clears rider d :=
    fun _ _ => exists_op_of_getElem? hop
  rcases opStep_row (d := d) hone with hsame | ⟨row', hrow', hmv⟩
  · -- the row stays
    refine ⟨row, hsame.trans hrow, hname, hoffer, ?_⟩
    rcases hcases with ⟨hs, ha, hc⟩ | ⟨hs, hc⟩
    · refine .inl ⟨hs, ?_, fun hc' => ?_⟩
      · rcases opStep_active hone rider d with hiff | ⟨-, -, -, ha'⟩ | ⟨hf, -⟩
        · exact hiff.mpr ha
        · exact ha'
        · refine absurd ((hclearing rider d).mpr (.inl ?_)) hc
          cases op <;> first | exact hf | exact hf.elim
      · rcases (clearing_set hop).mp hc' with hclears | hothers
        · rcases opStep_clears hone hclears with he | ⟨x, hx, hterminal⟩ | ⟨seen, -, hold⟩
          · obtain ⟨x, hx, hassigned⟩ := opStep_revokes hone he
            cases hrow.symm.trans hx
            rw [hs] at hassigned
            cases hassigned
          · cases (hsame.trans hrow).symm.trans hx
            rcases hterminal with ht | ht <;> rw [hs] at ht <;> cases ht
          · exact hc ((hclearing rider d).mpr (.inl hold))
        · exact hc ((hclearing rider d).mpr (.inr hothers))
    · refine .inr ⟨hs, fun ha' => (clearing_set hop).mpr ?_⟩
      rcases opStep_active hone rider d with hiff | ⟨o, rfl, hop', -⟩ | ⟨-, hout⟩
      · rcases (hclearing rider d).mp (hc (hiff.mp ha')) with hclears | hothers
        · exact (clears_opStep hone hclears).imp id (absurd ha')
        · exact .inr hothers
      · -- the lock of the offer is gone
        obtain ⟨-, ⟨e, hlock⟩, -⟩ := opStep_assigns hone hop'
        obtain ⟨x, hx, hxo, -⟩ := hok (RiderState.locks_iff.mpr ⟨e, hlock⟩)
        cases hrow.symm.trans hx
        obtain rfl : o = offer := hxo.symm.trans hoffer
        exact absurd hlock (hspent.2 rider e)
      · exact absurd ha' hout
  · -- the row moves
    cases hmv with
    | put hoffering => exact absurd (overwritten_of_put hop hoffering) hno
    | assign hq hs ho =>
      cases hrow.symm.trans hq
      obtain rfl := ho.symm.trans hoffer
      exact absurd (h.minted.once hp hop) hpid
    | @cancel seen x hq hs =>
      cases hrow.symm.trans hq
      have hinf := h.informed q _ hop
      obtain ⟨r, rfl, hr⟩ := hinf.2.resolve_left (hok ⟨row, hrow, hs⟩) row hrow
      exact ⟨_, hrow', hname, hoffer, .inr ⟨rfl, fun _ =>
        (clearing_set hop).mpr (.inl ⟨hr.trans hname, rfl⟩)⟩⟩
    | carried hq hs =>
      cases hrow.symm.trans hq
      rcases hcases with ⟨ho, -⟩ | ⟨ho, -⟩ <;> rw [ho] at hs <;>
        rcases hs with ⟨hs, -⟩ | ⟨hs, -⟩ <;> cases hs

/-- **A cancel between its read and its write**, while another operation makes a store call. -/
theorem Seen.run {seen : Option DeliveryRow} (hseen : Seen s.tables d seen) {q : ℕ}
    (hop : s.ops[q]? = some op) (hone : opStep cap fresh s.tables op = some (t, op'))
    (hno : d ∉ overwritten s (.run q fresh)) : Seen t d seen := by
  rcases opStep_row (d := d) hone with hsame | ⟨row', hrow', hmv⟩
  · intro row hrow
    exact hseen row (hsame.symm.trans hrow)
  · intro row hrow
    cases hrow'.symm.trans hrow
    cases hmv with
    | put hoffering => exact absurd (overwritten_of_put hop hoffering) hno
    | assign hq | cancel hq | carried hq =>
      obtain ⟨r, hr, hname⟩ := hseen _ hq
      exact ⟨r, hr, hname⟩

/-- What an operation knows while another one makes a store call. -/
theorem informed_beside (h : Timely w) {q : ℕ} (hpid : pid ≠ q)
    (hp : w.state.ops[pid]? = some op) {o o' : Op} (hop : w.state.ops[q]? = some o)
    (hok : o.Undisturbed w q) (hone : opStep cap fresh w.state.tables o = some (t, o'))
    (hstate : w'.state = ⟨t, record w.state.made o', w.state.ops.set q o'⟩)
    (hran : w'.ran pid = w.ran pid)
    (hsince : ∀ n d, w'.Since pid n d ↔
      w.Since pid n d ∨ n ≤ w.ran pid ∧ d ∈ overwritten w.state (.run q fresh)) :
    Informed w' pid op := by
  have hinf := h.informed pid op hp
  refine hinf.mono hran (fun d hs => (hsince 1 d).mpr (.inl hs)) (fun r o d he hr => ?_)
    fun d seen hseen hone' => ?_
  · subst he
    by_cases hd : d ∈ overwritten w.state (.run q fresh)
    · exact .inl ((hsince 1 d).mpr (.inr ⟨hinf.1, hd⟩))
    · rw [hstate]
      exact .inr (hr.run h hpid hp hop hok hone hd)
  · by_cases hd : d ∈ overwritten w.state (.run q fresh)
    · exact .inl ((hsince 1 d).mpr (.inr ⟨hone', hd⟩))
    · rw [hstate]
      exact .inr (hseen.run hop hone hd)

/-- Nothing that an operation knows is about the riders' presence. -/
theorem Informed.frame (h : Informed w pid op) (hran : w'.ran pid = w.ran pid)
    (hsince : ∀ d, w.Since pid 1 d → w'.Since pid 1 d)
    (hdeliveries : w'.state.tables.deliveries = w.state.tables.deliveries)
    (hactive : ∀ rider d, w'.state.tables.Active rider d ↔ w.state.tables.Active rider d)
    (hclearing : ∀ rider d, Clearing w'.state rider d ↔ Clearing w.state rider d) :
    Informed w' pid op := by
  refine h.mono hran hsince (fun r o d _ hr => .inr ?_) fun d seen hseen _ => .inr ?_
  · unfold Ready
    rw [hdeliveries, hactive, hclearing]
    exact hr
  · unfold Seen
    rw [hdeliveries]
    exact hseen

/-- **One step of an undisturbed run.** -/
theorem timely_step (h : Timely w) (hok : Undisturbed w e)
    (hstep : watch.watched (step cap) w e = some w') : Timely w' := by
  have hs := Watch.step_of_watched hstep
  refine ⟨h.minted.step hs, step_held h.held (sound_of_undisturbed h hok) hs, ?_, ?_⟩
  · -- the clean-ups
    rcases step_cases hs with ⟨call, -, hu⟩ | ⟨q, fresh, o, t, o', -, hop, -, hone, hu⟩ |
      ⟨rider, p, -, hu⟩ <;> rw [hu]
    · intro op hop rider d hc
      rcases List.mem_append.mp hop with hop | hop
      · exact h.cleaning op hop rider d hc
      · cases List.mem_singleton.mp hop
        exact absurd hc (call.begin_promises rider d).1
    · intro op hmem rider d hc
      rcases List.mem_or_eq_of_mem_set hmem with hmem | rfl
      · exact (h.cleaning op hmem rider d hc).imp id (over_opStep hone)
      · rcases opStep_clears hone hc with hrevoke | hover | ⟨seen, rfl, hold⟩
        · exact .inl hrevoke
        · exact .inr hover
        · rcases h.cleaning _ (List.mem_of_getElem? hop) rider d hold with he | hover
          · cases he
          · exact .inr (over_opStep hone hover)
    · exact h.cleaning
  · -- what the operations know
    intro pid op hop'
    rcases step_cases hs with ⟨call, rfl, hu⟩ | ⟨q, fresh, o, t, o', rfl, hop, -, hone, hu⟩ |
      ⟨rider, p, he, hu⟩
    · rw [hu, List.getElem?_append] at hop'
      split at hop'
      · next hlt =>
        obtain ⟨hran, hsince⟩ := Watch.waits_of_watched (k := pid) hstep
          (fun hb => hlt.ne (Option.some.inj hb).symm) (by rintro ⟨⟩)
        refine (h.informed pid op hop').frame hran (fun d hd => (hsince 1 d).mpr (.inl hd)) ?_ ?_ ?_
          <;> rw [hu]
        · exact fun _ _ => Iff.rfl
        · intro rider d
          simp [Clearing, or_and_right, exists_or, (call.begin_promises rider d).1]
      · cases List.mem_singleton.mp (List.mem_of_getElem? hop')
        cases call <;> trivial
    · by_cases hpid : pid = q
      · subst hpid
        obtain ⟨hran, hsince⟩ := Watch.runs_of_watched hstep (by rintro ⟨⟩) rfl
        rw [hu, List.getElem?_set_self (List.getElem?_eq_some_iff.mp hop).1] at hop'
        cases hop'
        exact informed_self h hop (hok o hop) hone hu hran (hsince 1)
      · obtain ⟨hran, hsince⟩ := Watch.waits_of_watched (k := pid) hstep (by rintro ⟨⟩)
          (fun hr => hpid (Option.some.inj hr).symm)
        rw [hu, List.getElem?_set_ne (Ne.symm hpid)] at hop'
        exact informed_beside h hpid hop' hop (hok o hop) hone hu hran hsince
    · obtain ⟨hran, hsince⟩ := Watch.waits_of_watched (k := pid) hstep
        (by rcases he with rfl | rfl <;> rintro ⟨⟩) (by rcases he with rfl | rfl <;> rintro ⟨⟩)
      rw [hu] at hop'
      refine (h.informed pid op hop').frame hran (fun d hd => (hsince 1 d).mpr (.inl hd)) ?_ ?_ ?_
        <;> rw [hu]
      · rfl
      · intro r d
        rw [Tables.active_setRider]
        split
        · next hr =>
          subst hr
          rfl
        · rfl
      · exact fun _ _ => Iff.rfl

end

/-! ### Whole runs -/

theorem timely_start : Timely (.start .empty) where
  minted := minted_empty
  held rider order := by
    simp [Held, Watched.start, System.empty, Tables.empty, Tables.Active, Tables.Carried,
      RiderState.absent]
  cleaning _ hop := by cases hop
  informed _ _ hop := by cases hop

/-- **Assignment agreement.**  In every undisturbed run, for any cap, riders and orders: whenever
no operation is in flight the tables agree and no order is with two riders; and an accept is only
answered `assigned` when the order's row names its rider. -/
theorem assignment_agreement (cap : ℕ) {is : List Event} {w : Watched System ℕ OrderId}
    (h : Run (watch.watched (step cap)) Undisturbed (.start .empty) is w) :
    (Quiet w.state → Agree w.state.tables ∧
      ∀ r r' d, w.state.tables.Active r d → w.state.tables.Active r' d → r = r') ∧
    ∀ pid fresh op u rider order, Undisturbed w (.run pid fresh) →
      step cap w.state (.run pid fresh) = some u → w.state.ops[pid]? = some op →
      op.accepting = some (rider, order) → u.ops[pid]? = some (.answered .assigned) →
      u.tables.Names rider order := by
  have ht : Timely w := h.invariant timely_start fun _ _ _ ht hok hstep => timely_step ht hok hstep
  refine ⟨fun hq => ⟨ht.held.agree hq, fun _ _ _ => (ht.held.agree hq).unique⟩, ?_⟩
  intro pid fresh op u rider order hok hstep hop hacc hu
  rcases step_cases hstep with ⟨_, he, -⟩ |
    ⟨pid', fresh', op₀, t, op', he, hop', -, hone, rfl⟩ | ⟨r, p, -, rfl⟩
  · cases he
  · cases he
    rw [hop] at hop'
    cases hop'
    have hlt : pid < w.state.ops.length := (List.getElem?_eq_some_iff.mp hop).1
    simp only [List.getElem?_set, hlt, if_true, Option.some.injEq] at hu
    subst hu
    exact opStep_assigned hone (sound_of_undisturbed ht hok op hop) hacc
  · rw [hop, Option.some.injEq] at hu
    subst hu
    cases hacc

/-- `r1` accepts `d` while a cancel takes it away between his two writes; `r2` accepts `e` while
a cancel of it reads the row before his second write, and writes after it. -/
def racing : List Event :=
  [.online "r1", .online "r2",
   .start (.findAndOffer "d" ["r1"]), .run 0 "o1", .run 0 "",
   .start (.findAndOffer "e" ["r2"]), .run 1 "o2", .run 1 "",
   .start (.acceptOffer "r1" "o1" "d"), .run 2 "",
   .start (.cancel "d"), .run 3 "", .run 3 "", .run 2 "", .run 3 "", .run 3 "",
   .start (.findAndOffer "f" ["r1"]), .run 4 "o3", .run 4 "",
   .start (.acceptOffer "r2" "o2" "e"), .start (.acceptOffer "r1" "o3" "f"),
   .run 5 "", .run 6 "", .start (.cancel "e"), .run 7 "", .run 5 "", .run 6 "",
   .run 7 "", .run 7 "", .run 7 "", .run 7 ""]

theorem assignment_agreement_racing :
    ∃ w, Run (watch.watched (step 2)) Undisturbed (.start .empty) racing w ∧
      w.state.tables.Active "r1" "f" ∧ Agree w.state.tables := by
  obtain ⟨w, hw, hp⟩ : ∃ w, Run (watch.watched (step 2)) Undisturbed (.start .empty) racing w ∧
      decide (Quiet w.state ∧ w.state.tables.Active "r1" "f") = true :=
    exists_run_of_execOk (by decide +kernel)
  have hp : Quiet w.state ∧ w.state.tables.Active "r1" "f" := of_decide_eq_true hp
  exact ⟨w, hw, hp.2, ((assignment_agreement 2 hw).1 hp.1).1⟩

/-- The cascade offers the order to `r1` and once more, to `r2`; then `r1` accepts. -/
def secondOffer : List Event :=
  [.online "r1", .online "r2",
   .start (.findAndOffer "d" ["r1"]), .run 0 "o1", .run 0 "",
   .start (.findAndOffer "d" ["r2"]), .run 1 "o2", .run 1 "",
   .start (.acceptOffer "r1" "o1" "d"), .run 2 "", .run 2 ""]

/-- After it the order is in the set of `r1`, and its row is OFFERING for `r2`. -/
theorem tables_disagree :
    ¬ ∀ (cap : ℕ) (is : List Event) (s : System), Run (step cap) Always .empty is s → Quiet s →
      Agree s.tables := by
  intro h
  obtain ⟨s, hs, hp⟩ : ∃ s, Run (step 2) Always .empty secondOffer s ∧
      decide (Quiet s ∧ s.tables.Active "r1" "d" ∧
        s.tables.deliveries "d" = some ⟨.offering, "r2", "o2"⟩) = true :=
    exists_run_of_execOk (by decide)
  obtain ⟨hq, ha, hrow⟩ := of_decide_eq_true hp
  obtain ⟨row, hrow', -, hr⟩ := (h 2 _ s hs hq "r1" "d").mp ha
  rw [hrow] at hrow'
  cases hrow'
  exact absurd hr (by decide)

end Dispatch
