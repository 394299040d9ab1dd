/-
What an execution of CANCEL_DISPATCH leaves behind.

* `Settled` — neither an offer nor an assignment of the order comes after its last cancel;
* `Free` — settled, nobody is locked, and nobody is assigned or going to be;
* `Free.step` — it stays so while the workflow looks for no rider;
* `Recorded` — every offer is in the log, hence an order without offers is free;
* `Executed`, `Cleaned` — an execution of CANCEL_DISPATCH, and a workflow that awaits it;
* `nextPc` — where a move takes a workflow; one that has ended stays there;
* `free_of_cleanUp` — a workflow that ends by its clean-up leaves the order free.
-/
import SmartFoodOps.Order.Locks

open Machine Durable Dispatch

namespace Order

namespace Cascade

open Delivery

/-! ### The log -/

/-- An offer or an assignment of the order. -/
def Concerns (d : OrderId) : Fact → Prop
  | .offered e _ _ => e = d
  | .assigned e _ _ => e = d
  | .cancelled _ | .relayed _ _ => False

instance decidableConcerns (d : OrderId) (f : Fact) : Decidable (Concerns d f) :=
  match f with
  | .offered e _ _ => inferInstanceAs (Decidable (e = d))
  | .assigned e _ _ => inferInstanceAs (Decidable (e = d))
  | .cancelled _ | .relayed _ _ => .isFalse id

def Unoffered (log : List Fact) (d : OrderId) : Prop := ∀ f ∈ log, ¬ Concerns d f

instance (log : List Fact) (d : OrderId) : Decidable (Unoffered log d) :=
  inferInstanceAs (Decidable (∀ f ∈ log, ¬ Concerns d f))

/-- Neither an offer nor an assignment of the order comes after its last cancel. -/
def Settled (log : List Fact) (d : OrderId) : Prop :=
  ∃ before after, log = before ++ after ∧ Unoffered after d ∧
    (before = [] ∨ before.getLast? = some (.cancelled d))

section

variable {log facts : List Fact} {d : OrderId}

theorem Unoffered.settled (h : Unoffered log d) : Settled log d := ⟨[], log, rfl, h, .inl rfl⟩

theorem Unoffered.append (h : Unoffered log d) (hf : Unoffered facts d) :
    Unoffered (log ++ facts) d := by
  intro f hmem
  rcases List.mem_append.mp hmem with hmem | hmem
  · exact h f hmem
  · exact hf f hmem

theorem Settled.append (h : Settled log d) (hf : Unoffered facts d) :
    Settled (log ++ facts) d := by
  obtain ⟨before, after, rfl, hafter, hlast⟩ := h
  exact ⟨before, after ++ facts, List.append_assoc .., hafter.append hf, hlast⟩

theorem settled_cancelled : Settled (log ++ [.cancelled d]) d :=
  ⟨log ++ [.cancelled d], [], (List.append_nil _).symm, by rintro f ⟨⟩, .inr (by simp)⟩

end

/-! ### What a store call adds to the log -/

section

variable {cap pid : ℕ} {fresh : OfferId} {s u : Dispatch.System} {op op' : Op} {d : OrderId}

/-- An offer is made by a reservation that applies, and an assignment by an accept whose row is
still OFFERING. -/
theorem facts_concerns {f : Fact} (hf : f ∈ facts s.tables op op') (hd : Concerns d f) :
    (∃ cs e rider offer, op = .reserve d cs ∧ op' = .putOffering e rider offer) ∨
      ∃ rider offer, op = .assign rider offer d ∧
        (DeliveryStore.assign (s.tables.deliveries d) offer).isSome = true := by
  unfold facts at hf
  split at hf
  · cases List.mem_singleton.mp hf
    cases hd
    exact .inl ⟨_, _, _, _, rfl, rfl⟩
  · rcases List.mem_append.mp hf with hf | hf
    · split at hf
      · next hsome =>
        cases List.mem_singleton.mp hf
        cases hd
        exact .inr ⟨_, _, rfl, hsome⟩
      · cases hf
    · cases List.mem_singleton.mp hf
      cases hd
  all_goals first
    | (cases List.mem_singleton.mp hf; cases hd)
    | cases hf

/-- While the order is engaged nobody is assigned to it. -/
theorem Engaged.not_assign (h : Engaged s d) {rider : RiderId} {offer : OfferId}
    (hop : .assign rider offer d ∈ s.ops) :
    (DeliveryStore.assign (s.tables.deliveries d) offer).isSome = false := by
  by_contra hsome
  obtain ⟨row, hrow⟩ := Option.isSome_iff_exists.mp (Bool.not_eq_false _ ▸ hsome)
  obtain ⟨q, hq, hs, rfl, -⟩ := DeliveryStore.assign_eq hrow
  exact (h q hq hs).2 _ hop rider d rfl

/-- An answered cancel is in the log. -/
theorem facts_cancelled {o : Outcome} (hc : StoreCall cap pid fresh s u op op')
    (hcan : Cancels d op) (ho : op' = .answered o) : facts s.tables op op' = [.cancelled d] := by
  subst ho
  have hd := does hc.made
  generalize u.tables = t at hd
  cases hd with
  | cancelsUnseen | cancelsUnseenAssigned | keeps | finishesCancelled => cases hcan; rfl
  | _ => cases hcan

end

/-! ### One step, as the log sees it -/

/-- The step is no store call: at most a request has arrived. -/
structure Beside (w v : World) : Prop where
  log : v.log = w.log
  made : v.dispatch.made = w.dispatch.made
  ops : ∀ (pid : ℕ) op, w.dispatch.ops[pid]? = some op → v.dispatch.ops[pid]? = some op
  undisturbed : ∀ d, Undisturbed w.dispatch v.dispatch d True

section

variable {cap pid : ℕ} {fresh : OfferId} {s u : System} {v : Dispatch.System} {w : World}
  {op op' : Op} {l : Label} {d : OrderId}

theorem Beside.refl (w : World) : Beside w w where
  log := rfl
  made := rfl
  ops _ _ hop := hop
  undisturbed _ := ⟨fun _ _ hl => hl, fun _ _ _ hrow => .inl hrow, fun _ _ _ hrow => hrow,
    fun _ _ _ hp => hp, id, id⟩

theorem beside_of_step {e : Dispatch.Event} (h : Dispatch.step cap w.dispatch e = some v)
    (he : ∀ pid fresh, e ≠ .run pid fresh) : Beside w ⟨v, w.log⟩ where
  log := rfl
  made := by
    rcases Dispatch.step_cases h with ⟨c, -, rfl⟩ | ⟨pid, fresh, _, _, _, hrun, -⟩ |
      ⟨rider, p, -, rfl⟩
    · rfl
    · exact absurd hrun (he pid fresh)
    · rfl
  ops := (undisturbed_step (d := default) h he).2
  undisturbed d := (undisturbed_step h he).1

theorem beside_call (w : World) (c : Call) : Beside w (w.call c) :=
  beside_of_step (call_step 0 w c) (by simp)

/-- **One step, as the log sees it**: a store call adds its facts, and nothing else adds
any. -/
theorem step_log (hs : step cap s l = some u) :
    Beside s.world u.world ∨ ∃ (pid : ℕ) (fresh : OfferId) (op op' : Op),
      l = .env (.dispatch (.run pid fresh)) ∧
        StoreCall cap pid fresh s.world.dispatch u.world.dispatch op op' ∧
        u.world.log = s.world.log ++ facts s.world.dispatch.tables op op' := by
  rcases step_cases hs with ⟨e, m, w', i', -, -, hm, rfl⟩ | ⟨e, w', rfl, -, he, rfl⟩ |
    ⟨e, -, -, rfl⟩
  · rcases move_cases hm with ⟨input, a, phase, t, -, -, -, hw, -⟩ | ⟨rfl, -⟩
    · rcases work_cases hw with ⟨c, -, -, rfl, -⟩ | ⟨-, -, -, -, -, -, rfl, -⟩ | ⟨-, rfl, -⟩
      · exact .inl (beside_call _ c)
      · exact .inl (.refl _)
      · exact .inl (.refl _)
    · exact .inl (.refl _)
  · obtain ⟨v, hv, rfl⟩ := Option.map_eq_some_iff.mp he
    cases e with
    | run pid fresh =>
      obtain ⟨op, op', hc⟩ := storeCall_of_step hv
      exact .inr ⟨pid, fresh, op, op', rfl, hc, by simp [happened, hc.at_pid, hc.next]⟩
    | start c => exact .inl (by simpa [happened] using beside_of_step hv (by simp))
    | online rider => exact .inl (by simpa [happened] using beside_of_step hv (by simp))
    | offline rider => exact .inl (by simpa [happened] using beside_of_step hv (by simp))
  · exact .inl (beside_call _ _)

/-! ### Store calls while the workflow looks for no rider -/

/-- No rider gets locked, and no offer is put. -/
theorem aside_of_seen (hi : OrderOk s.world.dispatch d (s.insts d))
    (hok : SeenCall cap s pid fresh op)
    (hc : StoreCall cap pid fresh s.world.dispatch v op op')
    (hpc : (s.insts d).pos.pc ≠ .findAndOffer) : Aside s.world.dispatch v op d where
  kept r o hl := by
    rcases opStep_locked hc.made hl with hold | ⟨-, -, hop'⟩
    · exact hold
    · obtain ⟨⟨cs, rfl⟩, -, hsome⟩ := opStep_puts hc.made hop'
      exact absurd (hok hsome).1 hpc
  put r o he := hpc (hi.puts pid r o (he ▸ hc.at_pid)).1

/-- An engaged order gets neither an offer nor an assignment. -/
theorem unoffered_call (hok : SeenCall cap s pid fresh op)
    (hc : StoreCall cap pid fresh s.world.dispatch v op op')
    (hpc : (s.insts d).pos.pc ≠ .findAndOffer) (heng : Engaged s.world.dispatch d) :
    Unoffered (facts s.world.dispatch.tables op op') d := by
  intro f hf hd
  rcases facts_concerns hf hd with ⟨cs, e, rider, offer, rfl, rfl⟩ | ⟨rider, offer, rfl, hsome⟩
  · obtain ⟨⟨cs', hcs⟩, -, hsome⟩ := opStep_puts hc.made rfl
    cases hcs
    exact hpc (hok hsome).1
  · rw [heng.not_assign hc.mem] at hsome
    cases hsome

/-- The order is settled, nobody is locked for it, and nobody is assigned to it or going to
be. -/
structure Free (w : World) (d : OrderId) : Prop where
  settled : Settled w.log d
  noLock : NoLock w.dispatch d
  final : Final w.dispatch d

theorem Settled.step (h : Settled s.world.log d) (heng : Engaged s.world.dispatch d)
    (hok : Accounted cap s l) (hs : step cap s l = some u)
    (hpc : (s.insts d).pos.pc ≠ .findAndOffer) : Settled u.world.log d := by
  rcases step_log hs with hb | ⟨pid, fresh, op, op', rfl, hc, hlog⟩
  · rw [hb.log]
    exact h
  · rw [hlog]
    exact h.append (unoffered_call (hok op hc.at_pid) hc hpc heng)

/-- What one step leaves alone while the workflow looks for no rider. -/
theorem undisturbed_of_seen (hi : Inv s) (hok : Accounted cap s l)
    (hs : Cascade.step cap s l = some u) (hpc : (s.insts d).pos.pc ≠ .findAndOffer) :
    ∃ calm, Undisturbed s.world.dispatch u.world.dispatch d calm := by
  rcases step_log hs with hb | ⟨pid, fresh, op, op', rfl, hc, -⟩
  · exact ⟨True, hb.undisturbed d⟩
  · have ha := aside_of_seen (hi.order d) (hok op hc.at_pid) hc hpc
    exact ⟨_, undisturbed_call hc hi.minted ha ((hi.order d).fact op hc.mem)⟩

theorem Free.step (h : Free s.world d) (hi : Inv s) (hok : Accounted cap s l)
    (hs : Cascade.step cap s l = some u) (hpc : (s.insts d).pos.pc ≠ .findAndOffer) :
    Free u.world d := by
  obtain ⟨calm, hu⟩ := undisturbed_of_seen hi hok hs hpc
  exact ⟨h.settled.step h.final.1 hok hs hpc, h.noLock.mono hu, hu.final h.final⟩

/-! ### Every offer is in the log -/

/-- Every offer that was made is in the log. -/
def Recorded (w : World) : Prop :=
  ∀ offer rider d, w.dispatch.made offer = some (rider, d) → Fact.offered d rider offer ∈ w.log

theorem recorded_empty : Recorded System.empty.world := by
  rintro offer rider d ⟨⟩

theorem Recorded.step (h : Recorded s.world) (hs : Cascade.step cap s l = some u) :
    Recorded u.world := by
  intro offer rider d hmade
  rcases step_log hs with hb | ⟨pid, fresh, op, op', rfl, hc, hlog⟩
  · rw [hb.log]
    rw [hb.made] at hmade
    exact h offer rider d hmade
  · rw [hlog, List.mem_append]
    have hrec : u.world.dispatch.made = record s.world.dispatch.made op' := by
      rcases Dispatch.step_cases hc.step with ⟨_, he, -⟩ | ⟨_, _, o, t, o', he, ho, -, hone, hu⟩ |
        ⟨_, _, he | he, -⟩
      · cases he
      · cases he
        cases hc.at_pid.symm.trans ho
        have ho' : o' = op' := by
          have hmk := hc.made
          rw [hone] at hmk
          exact (Prod.mk.inj (Option.some.inj hmk)).2
        rw [hu, ho']
      · cases he
      · cases he
    rw [hrec] at hmade
    cases op' with
    | putOffering e r o =>
      obtain ⟨⟨cs, rfl⟩, -, -⟩ := opStep_puts hc.made rfl
      by_cases ho : offer = o
      · -- the offer that the call makes
        subst ho
        have hmade : Function.update s.world.dispatch.made offer (some (r, e)) offer =
            some (rider, d) := hmade
        rw [Function.update_self] at hmade
        cases hmade
        exact .inr (List.mem_singleton.mpr rfl)
      · have hmade : Function.update s.world.dispatch.made o (some (r, e)) offer =
            some (rider, d) := hmade
        rw [Function.update_of_ne ho] at hmade
        exact .inl (h offer rider d hmade)
    | _ => exact .inl (h offer rider d hmade)

/-- An order without offers has no lock and no row. -/
theorem Unoffered.free {w : World} (h : Unoffered w.log d) (hrec : Recorded w)
    (hm : Minted w.dispatch) : Free w d := by
  have hrow : ∀ q, w.dispatch.tables.deliveries d ≠ some q := fun q hq =>
    h _ (hrec _ _ _ (hm.row hq)) rfl
  refine ⟨h.settled, fun rider offer hl => ?_, fun q hq => absurd hq (hrow q),
    fun q hq => absurd hq (hrow q)⟩
  exact h _ (hrec _ _ _ (hm.locked hl)) rfl

/-! ### An execution of CANCEL_DISPATCH -/

/-- The execution cancels the order's dispatch; once it has answered the order is settled. -/
def Executed (w : World) (d : OrderId) (pid : ℕ) : Prop :=
  ∃ op, w.dispatch.ops[pid]? = some op ∧ CancelOk w.dispatch d op ∧
    ∀ o, op = .answered o → Settled w.log d

theorem executed_call (h : Freeable w.dispatch d) :
    Executed (w.call (.cancel d)) d w.dispatch.ops.length := by
  have hu := (beside_call w (.cancel d)).undisturbed d
  exact ⟨.readCancelled d, by simp [World.call, Call.begin], ⟨rfl, h.mono hu⟩, by rintro o ⟨⟩⟩

theorem not_findAndOffer {pc : Pc} (h : cancelling pc = true) : pc ≠ .findAndOffer := by
  rintro rfl
  cases h

/-- An execution that has not answered goes on. -/
theorem CancelOk.cancels (h : CancelOk s.world.dispatch d op)
    (hc : StoreCall cap pid fresh s.world.dispatch v op op') : Cancels d op := by
  have hmade := hc.made
  cases op with
  | answered o => cases hmade
  | _ => first | exact h.1 | cases h

theorem Executed.step (h : Executed s.world d pid) (hi : Inv s) (hok : Accounted cap s l)
    (hs : Cascade.step cap s l = some u) (hpc : cancelling (s.insts d).pos.pc = true) :
    Executed u.world d pid := by
  have hnf := not_findAndOffer hpc
  obtain ⟨o, hop, hcan, hset⟩ := h
  rcases step_log hs with hb | ⟨pid', fresh, op, op', rfl, hc, hlog⟩
  · exact ⟨o, hb.ops pid o hop, hcan.mono (hb.undisturbed d), fun r hr => hb.log ▸ hset r hr⟩
  · have hseen : SeenCall cap s pid' fresh op := hok op hc.at_pid
    have hfact := (hi.order d).fact op hc.mem
    by_cases hpid : pid' = pid
    · -- its own store call
      subst hpid
      obtain rfl : op = o := Option.some.inj (hc.at_pid.symm.trans hop)
      have hcancels := hcan.cancels hc
      have hfree := (hi.order d).offers.freeable hpc
      refine ⟨op', hc.next, (cancel_call hc hi.minted hcancels hfact hfree).2, fun r hr => ?_⟩
      rw [hlog, facts_cancelled hc hcancels hr]
      exact settled_cancelled
    · have hu := undisturbed_call hc hi.minted (aside_of_seen (hi.order d) hseen hc hnf) hfact
      refine ⟨o, (hc.other hpid).trans hop, hcan.mono hu, fun r hr => ?_⟩
      rw [hlog]
      refine (hset r hr).append (unoffered_call hseen hc hnf ?_)
      subst hr
      exact hcan.2.1

/-- A workflow that awaits its clean-up, or has the result of it. -/
def Cleaned (w : World) (d : OrderId) (pc : Pc) (t : Attempt CallPhase Answer) : Prop :=
  match pc, t with
  | .cancelDispatch, .working (.waiting pid) => Executed w d pid
  | .cancelDispatch, .answered _ => Settled w.log d
  | _, _ => True

theorem cleaned_send (w : World) (d : OrderId) (pc : Pc) : Cleaned w d pc (.working .send) := by
  cases pc <;> trivial

theorem cleaned_of_ne {pc : Pc} {t : Attempt CallPhase Answer} (h : pc ≠ .cancelDispatch) :
    Cleaned w d pc t := by
  cases pc <;> trivial

/-- The workflow stays where it is. -/
theorem Cleaned.step (h : Cleaned s.world d (s.insts d).pos.pc (s.insts d).attempt) (hi : Inv s)
    (hok : Accounted cap s l) (hs : Cascade.step cap s l = some u) :
    Cleaned u.world d (s.insts d).pos.pc (s.insts d).attempt := by
  by_cases hpc : (s.insts d).pos.pc = .cancelDispatch
  · have hoffers := (hi.order d).offers
    have hcan : cancelling (s.insts d).pos.pc = true := by rw [hpc]; rfl
    rw [hpc] at h hoffers ⊢
    cases ht : (s.insts d).attempt with
    | working phase =>
      rw [ht] at h
      cases phase with
      | send => exact cleaned_send _ _ _
      | waiting pid => exact Executed.step h hi hok hs hcan
    | answered answer =>
      rw [ht] at h hoffers
      have hset : Settled s.world.log d := h
      exact hset.step hoffers.2.1 hok hs (not_findAndOffer hcan)
    | refused => trivial
  · exact cleaned_of_ne hpc

theorem Cleaned.move {m : Move Input News Delivery.Event} {w' : World}
    {i i' : Inst Pos CallPhase Answer} (h : Cleaned w d i.pos.pc i.attempt)
    (hi : OrderOk w.dispatch d i)
    (hm : Durable.move Delivery.flow worker d w i m = some (w', i')) :
    Cleaned w' d i'.pos.pc i'.attempt := by
  rcases move_cases hm with ⟨input, a, phase, t, -, ha, ht, hw, rfl⟩ | ⟨rfl, hrest⟩
  · by_cases hpc : i.pos.pc = .cancelDispatch
    · have ha : Delivery.activity i.pos = some a := ha
      simp only [Delivery.activity, hpc, Option.some.injEq] at ha
      subst ha
      have hoffers := hi.offers
      rw [ht, hpc] at h hoffers
      show Cleaned w' d i.pos.pc t
      rw [hpc]
      rcases work_cases hw with ⟨c, hcall, rfl, rfl, rfl⟩ | ⟨c, pid, o, -, rfl, hop, rfl, rfl⟩ |
        ⟨hcall, -, -⟩
      · cases hcall
        exact executed_call hoffers
      · obtain ⟨op, hop', -, hset⟩ := h
        exact hset o (Option.some.inj (hop'.symm.trans hop))
      · cases hcall
    · exact cleaned_of_ne hpc
  · rcases hrest with ⟨-, -, rfl⟩ | ⟨-, -, -, -, -, rfl⟩ | ⟨-, -, -, -, rfl⟩ |
      ⟨-, -, -, hbound, -⟩ | ⟨n, -, rfl⟩ | ⟨-, -, -, -, rfl⟩
    · exact cleaned_send _ _ _
    · exact cleaned_send _ _ _
    · exact cleaned_send _ _ _
    · cases hbound
    · have hpc : (note i.pos n).pc = i.pos.pc := note_pc _ n
      show Cleaned _ d (note i.pos n).pc i.attempt
      rw [hpc]
      exact h
    · exact cleaned_send _ _ _

/-- **What is known of every clean-up**, over a step. -/
theorem cleaned_step (h : ∀ d, Cleaned s.world d (s.insts d).pos.pc (s.insts d).attempt)
    (hi : Inv s) (hok : Accounted cap s l) (hs : Cascade.step cap s l = some u) (d : OrderId) :
    Cleaned u.world d (u.insts d).pos.pc (u.insts d).attempt := by
  have hstay := (h d).step hi hok hs
  rcases step_cases hs with ⟨e, m, w', i', rfl, -, hm, rfl⟩ | ⟨e, w', -, -, -, rfl⟩ |
    ⟨e, -, -, rfl⟩
  · show Cleaned w' d (Function.update s.insts e i' d).pos.pc
      (Function.update s.insts e i' d).attempt
    by_cases hed : d = e
    · subst hed
      rw [Function.update_self]
      exact (h d).move (hi.order d) hm
    · rw [Function.update_of_ne hed]
      exact hstay
  · exact hstay
  · exact hstay

/-! ### How a workflow ends -/

/-- Where a move takes the workflow. -/
def nextPc (i : Inst Pos CallPhase Answer) : Move Input News Delivery.Event → Pc
  | .report =>
    match i.attempt with
    | .answered answer => (afterAnswer i.pos answer).pc
    | .refused => (afterFailure i.pos).pc
    | .working _ => i.pos.pc
  | .event e => ((afterWait i.pos e).map Pos.pc).getD i.pos.pc
  | .work _ | .lose | .expire | .signal _ => i.pos.pc

theorem move_pc {m : Move Input News Delivery.Event} {w' : World}
    {i i' : Inst Pos CallPhase Answer}
    (hm : Durable.move Delivery.flow worker d w i m = some (w', i')) : i'.pos.pc = nextPc i m := by
  rcases move_cases hm with ⟨input, a, phase, t, rfl, -, -, -, rfl⟩ | ⟨-, hrest⟩
  · rfl
  · rcases hrest with ⟨rfl, -, rfl⟩ | ⟨a, answer, rfl, -, ht, rfl⟩ | ⟨a, rfl, -, ht, rfl⟩ |
      ⟨-, -, -, hbound, -⟩ | ⟨n, rfl, rfl⟩ | ⟨e, pos, rfl, he, rfl⟩
    · rfl
    · rw [nextPc, ht]
      rfl
    · rw [nextPc, ht]
      rfl
    · cases hbound
    · exact note_pc _ n
    · have he : afterWait i.pos e = some pos := he
      rw [nextPc, he]
      rfl

theorem step_pc {m : Move Input News Delivery.Event}
    (hs : Cascade.step cap s (.flow d m) = some u) : (u.insts d).pos.pc = nextPc (s.insts d) m := by
  rcases step_cases hs with ⟨e, m', w', i', he, -, hm, rfl⟩ | ⟨_, _, he, -⟩ | ⟨_, he, -⟩
  · cases he
    show (Function.update s.insts d i' d).pos.pc = _
    rw [Function.update_self]
    exact move_pc hm
  · cases he
  · cases he

/-- A workflow moves by its own moves. -/
theorem step_other (hs : Cascade.step cap s l = some u) (hl : ∀ m, l ≠ .flow d m) :
    u.insts d = s.insts d := by
  rcases step_cases hs with ⟨e, m, w', i', rfl, -, -, rfl⟩ | ⟨_, _, rfl, -, -, rfl⟩ |
    ⟨_, rfl, -, rfl⟩
  · refine Function.update_of_ne ?_ _ _
    rintro rfl
    exact hl m rfl
  · rfl
  · rfl

/-- A workflow that has ended stays where it is. -/
theorem nextPc_of_closed {i : Inst Pos CallPhase Answer} {m : Move Input News Delivery.Event}
    {w' : World} {i' : Inst Pos CallPhase Answer} (h : i.pos.pc.closed = true)
    (hm : Durable.move Delivery.flow worker d w i m = some (w', i')) : nextPc i m = i.pos.pc := by
  have hnone : Delivery.activity i.pos = none := by
    unfold Delivery.activity
    split <;> first | rfl | (next hpc => rw [hpc] at h; cases h)
  have hstay : ∀ e, afterWait i.pos e = none := by
    intro e
    obtain ⟨⟨pc, attempt, exclude, past, told⟩, t⟩ := i
    cases pc <;> first | (cases e <;> rfl) | cases h
  rcases move_cases hm with ⟨input, a, phase, t, rfl, -, -, -, -⟩ | ⟨-, hrest⟩
  · rfl
  · rcases hrest with ⟨rfl, -, -⟩ | ⟨a, answer, -, ha, -⟩ | ⟨a, -, ha, -⟩ | ⟨-, -, -, hbound, -⟩ |
      ⟨n, rfl, -⟩ | ⟨e, pos, -, he, -⟩
    · rfl
    · cases hnone.symm.trans ha
    · cases hnone.symm.trans ha
    · cases hbound
    · rfl
    · cases (hstay e).symm.trans he

theorem closed_step (hs : Cascade.step cap s l = some u)
    (h : (s.insts d).pos.pc.closed = true) : (u.insts d).pos.pc = (s.insts d).pos.pc := by
  by_cases hl : ∃ m, l = .flow d m
  · obtain ⟨m, rfl⟩ := hl
    rw [step_pc hs]
    rcases step_cases hs with ⟨e, m', w', i', he, -, hm, -⟩ | ⟨_, _, he, -⟩ | ⟨_, he, -⟩
    · cases he
      exact nextPc_of_closed h hm
    · cases he
    · cases he
  · push Not at hl
    rw [step_other hs hl]

/-- The clean-up can only end the workflow as cancelled. -/
theorem nextPc_cleanUp {i : Inst Pos CallPhase Answer} {m : Move Input News Delivery.Event}
    (hpc : i.pos.pc = .cancelDispatch) (h : (nextPc i m).closed = true) :
    nextPc i m = .cancelled := by
  obtain ⟨⟨pc, attempt, exclude, past, told⟩, t⟩ := i
  cases hpc
  cases m with
  | report =>
    cases t with
    | working phase => cases h
    | answered answer => rfl
    | refused => rfl
  | event e => cases e <;> cases h
  | _ => cases h

/-- **A workflow that ends by its clean-up leaves the order free.** -/
theorem free_of_cleanUp (h : Cleaned s.world d (s.insts d).pos.pc (s.insts d).attempt)
    (hi : Inv s) (hup : CleanedUp s l) (hs : Cascade.step cap s l = some u)
    (hpc : (s.insts d).pos.pc ≠ .cancelled) (hpc' : (u.insts d).pos.pc = .cancelled) :
    Free u.world d := by
  rcases cancelled_step hs hpc' with hold | ⟨rfl, hcd, hworld, hanswer⟩
  · exact absurd hold hpc
  · have hoffers := (hi.order d).offers
    rw [hcd] at h hoffers
    rcases hanswer with ⟨answer, ha⟩ | ha
    · rw [ha] at h hoffers
      rw [hworld]
      refine ⟨h, fun r o hl => ?_, hoffers.2⟩
      obtain ⟨seen, hmem, -⟩ := hoffers.1 r o hl
      exact hup hcd _ hmem rfl
    · rw [ha] at hoffers
      cases hoffers

end

end Cascade

end Order
