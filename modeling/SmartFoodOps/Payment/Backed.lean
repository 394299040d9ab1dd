/-
What the service has written down, the processor has on record.

The facts about the processor that matter never cease to hold: what it has answered
it has answered, and a hold that is captured or voided is spent.  Every payments row,
every stored answer and every operation in progress is backed by such facts.

* `Truth.Le` — the processor's book and the history only grow;
* `opStep_backed` — a statement writes only what is backed;
* `Backed.step` — one step of the service and the processor keeps it so;
* `Backed.declined`, `Backed.voided` — hence what an answer 402 to an authorization
  and a converged or answered void say about the hold.
-/
import SmartFoodOps.Payment.Psp
import SmartFoodOps.Payment.Ledger

open Machine Transaction

namespace Payment

open Dispatch (OrderId)

/-! ### Facts -/

/-- The processor's book and the history of the voids. -/
structure Truth where
  psp : Psp
  voidedAbsent : List OrderId

def Gateway.truth (g : Gateway) : Truth := ⟨g.psp, g.voidedAbsent⟩

namespace Truth

def Approved (τ : Truth) (order : OrderId) (ref : String) : Prop :=
  τ.psp.answered (authKey order) = some (.authorization true ref)

def Declined (τ : Truth) (order : OrderId) : Prop :=
  ∃ ref, τ.psp.answered (authKey order) = some (.authorization false ref)

/-- The hold is no more: captured, voided or refunded. -/
def Spent (τ : Truth) (order : OrderId) : Prop :=
  ∃ ref st, τ.Approved order ref ∧ τ.psp.refs ref = some st ∧ st ≠ .authorized

/-- Nothing is held, as far as a void can tell. -/
def Released (τ : Truth) (order : OrderId) : Prop :=
  τ.Spent order ∨ τ.Declined order ∨ order ∈ τ.voidedAbsent

/-- Answers are kept, spent holds stay spent, and the history is kept. -/
structure Le (τ τ' : Truth) : Prop where
  answered : ∀ key a, τ.psp.answered key = some a → τ'.psp.answered key = some a
  spent : ∀ ref st, τ.psp.refs ref = some st → st ≠ .authorized →
    ∃ st', τ'.psp.refs ref = some st' ∧ st' ≠ .authorized
  known : ∀ ref, τ.psp.refs ref ≠ none → τ'.psp.refs ref ≠ none
  voided : ∀ order, order ∈ τ.voidedAbsent → order ∈ τ'.voidedAbsent

variable {τ τ' : Truth} {order : OrderId} {ref ref' : String}

theorem Le.refl (τ : Truth) : Le τ τ :=
  ⟨fun _ _ h => h, fun _ st h hne => ⟨st, h, hne⟩, fun _ h => h, fun _ h => h⟩

theorem Approved.unique (h : τ.Approved order ref) (h' : τ.Approved order ref') : ref = ref' := by
  have := h.symm.trans h'
  simpa using this

theorem Le.declined (hle : Le τ τ') (h : τ.Declined order) : τ'.Declined order := by
  obtain ⟨ref, h⟩ := h
  exact ⟨ref, hle.answered _ _ h⟩

theorem Le.isSpent (hle : Le τ τ') (h : τ.Spent order) : τ'.Spent order := by
  obtain ⟨ref, st, happ, hst, hne⟩ := h
  obtain ⟨st', hst', hne'⟩ := hle.spent ref st hst hne
  exact ⟨ref, st', hle.answered _ _ happ, hst', hne'⟩

theorem Le.released (hle : Le τ τ') (h : τ.Released order) : τ'.Released order := by
  rcases h with h | h | h
  · exact .inl (hle.isSpent h)
  · exact .inr (.inl (hle.declined h))
  · exact .inr (.inr (hle.voided order h))

end Truth

/-! ### What backs a row, an answer, an operation -/

/-- A payments row: a decline, or a hold, spent if the row says so. -/
def RowBacked (τ : Truth) (order : OrderId) (row : PaymentRow) : Prop :=
  if row.status = .declined then τ.Declined order
  else (∃ ref, row.paymentIntentId = some ref ∧ τ.Approved order ref) ∧
    (row.status ≠ .authorized → τ.Spent order)

/-- An answer: 402 to an authorization, 200 to a void. -/
def Vouched (τ : Truth) (call : Call) (statusCode : ℕ) : Prop :=
  match call with
  | .authorize order _ _ _ => statusCode = 402 → τ.Declined order
  | .lifecycle .void order => statusCode = 200 → τ.Released order
  | .lifecycle _ _ => True

/-- A state conflict raised by a void, which the client takes for success. -/
def Conceded (τ : Truth) (call : Call) (error : MoneyError) : Prop :=
  error = .stateConflict → ∀ order, call = .lifecycle .void order → τ.Released order

def KeyBacked (τ : Truth) (call : Call) (row : Idempotency.Row Body) : Prop :=
  ∀ st, row.responseStatus = some st → Vouched τ call st

/-- An operation, by where it is. -/
def OpBacked (τ : Truth) (call : Call) : Op → Prop
  | .insertPayment approved ref => ∀ order amount currency token,
    call = .authorize order amount currency token →
      τ.psp.answered (authKey order) = some (.authorization approved ref)
  | .callGateway row => ∀ op order, call = .lifecycle op order →
    RowBacked τ order row ∧ row.status = op.expected
  | .updatePayment _ | .insertLedger _ | .stageEvent _ | .readExisting =>
    ∀ op order, call = .lifecycle op order → τ.Spent order
  | .completeKey outcome | .commit outcome | .answered outcome => Vouched τ call outcome.statusCode
  | .releaseKey error | .raised error => Conceded τ call error
  | _ => True

/-- The tables, uncommitted writes included. -/
structure DbBacked (τ : Truth) (db : Db) : Prop where
  committed : ∀ order row, db.payments.committed order = some row → RowBacked τ order row
  pending : ∀ order pid row, db.payments.pending order = some (pid, some row) →
    RowBacked τ order row
  keys : ∀ call row, db.keys.committed call.key = some row → KeyBacked τ call row
  keysPending : ∀ call pid row, db.keys.pending call.key = some (pid, some row) →
    KeyBacked τ call row

section

variable {τ τ' : Truth} {order : OrderId} {row : PaymentRow} {call call' : Call} {op : Op}
  {db db' : Db} {pid : ℕ}

theorem RowBacked.mono (hle : τ.Le τ') (h : RowBacked τ order row) : RowBacked τ' order row := by
  unfold RowBacked at h ⊢
  split at h
  · next hs => rw [if_pos hs]; exact hle.declined h
  · next hs =>
    rw [if_neg hs]
    obtain ⟨⟨ref, hr, happ⟩, hspent⟩ := h
    exact ⟨⟨ref, hr, hle.answered _ _ happ⟩, fun hne => hle.isSpent (hspent hne)⟩

theorem Vouched.mono (hle : τ.Le τ') {st : ℕ} (h : Vouched τ call st) : Vouched τ' call st := by
  unfold Vouched at h ⊢
  split at h
  · exact fun hst => hle.declined (h hst)
  · exact fun hst => hle.released (h hst)
  · trivial

theorem OpBacked.mono (hle : τ.Le τ') (h : OpBacked τ call op) : OpBacked τ' call op := by
  cases op with
  | insertPayment approved ref =>
    exact fun order amount currency token hc => hle.answered _ _ (h order amount currency token hc)
  | callGateway row => exact fun op order hc => ⟨(h op order hc).1.mono hle, (h op order hc).2⟩
  | updatePayment | insertLedger | stageEvent | readExisting =>
    exact fun op order hc => hle.isSpent (h op order hc)
  | completeKey | commit | answered => exact Vouched.mono hle h
  | releaseKey | raised => exact fun he order hc => hle.released (h he order hc)
  | _ => trivial

theorem DbBacked.mono (hle : τ.Le τ') (h : DbBacked τ db) : DbBacked τ' db :=
  ⟨fun order row hr => (h.committed order row hr).mono hle,
    fun order pid row hr => (h.pending order pid row hr).mono hle,
    fun call row hr st hst => (h.keys call row hr st hst).mono hle,
    fun call pid row hr st hst => (h.keysPending call pid row hr st hst).mono hle⟩

/-! ### Keys -/

/-- The part of a call that its key names. -/
def Call.opName : Call → String
  | .authorize _ _ _ _ => "auth"
  | .lifecycle op _ => op.name

theorem Call.key_eq (call : Call) : call.key = call.order ++ ":" ++ call.opName := by
  cases call <;> rfl

theorem key_inj (h : call.key = call'.key) : call.order = call'.order ∧ call.opName = call'.opName := by
  have hcolon : ∀ call : Call, ':' ∉ call.opName.toList := by
    intro call
    cases call with
    | authorize => simp only [Call.opName]; decide
    | lifecycle op => cases op <;> simp only [Call.opName, Lifecycle.name] <;> decide
  have hlist : call.order.toList ++ ':' :: call.opName.toList =
      call'.order.toList ++ ':' :: call'.opName.toList := by
    have := congrArg String.toList h
    simpa [Call.key_eq] using this
  obtain ⟨ho, hn⟩ := append_colon_inj hlist (hcolon call) (hcolon call')
  exact ⟨String.toList_injective ho, String.toList_injective hn⟩

/-- What vouches for an answer depends on the key only. -/
theorem vouched_of_key_eq {st : ℕ} (hk : call.key = call'.key) (h : Vouched τ call st) :
    Vouched τ call' st := by
  obtain ⟨ho, hn⟩ := key_inj hk
  cases call with
  | authorize order =>
    cases call' with
    | authorize order' => cases ho; exact h
    | lifecycle op order' => cases op <;> exact absurd hn (by simp [Call.opName, Lifecycle.name])
  | lifecycle op order =>
    cases call' with
    | authorize order' => cases op <;> exact absurd hn (by simp [Call.opName, Lifecycle.name])
    | lifecycle op' order' =>
      cases ho
      cases op <;> cases op' <;> first | exact h | exact absurd hn (by simp [Call.opName, Lifecycle.name])

theorem authKey_inj {o : OrderId} (h : authKey o = authKey order) : o = order := by
  have hk : (Call.authorize o 0 "" "").key = (Call.authorize order 0 "" "").key := h
  exact (key_inj hk).1

theorem authKey_ne_lifecycle {order' : OrderId} {kind : Lifecycle} :
    authKey order ≠ (Call.lifecycle kind order').key := by
  intro h
  have hk : (Call.authorize order 0 "" "").key = (Call.lifecycle kind order').key := h
  have hn := (key_inj hk).2
  cases kind <;> exact absurd hn (by simp [Call.opName, Lifecycle.name])

/-! ### The tables under the statements -/

theorem DbBacked.read (h : DbBacked τ db) (hr : db.payments.read pid order = some row) :
    RowBacked τ order row := by
  unfold Rows.read at hr
  split at hr
  · next u v hp =>
    split at hr
    · subst hr
      exact h.pending order u row hp
    · exact h.committed order row hr
  · exact h.committed order row hr

/-- A row of the caller's key, or none. -/
theorem DbBacked.setKey {kr : Option (Idempotency.Row Body)} (h : DbBacked τ db)
    (hk : ∀ r, kr = some r → KeyBacked τ call r) : DbBacked τ (db.setKey call.key kr) := by
  refine ⟨h.committed, h.pending, fun c r hr => ?_, h.keysPending⟩
  by_cases hc : c.key = call.key
  · have hr : kr = some r := by
      simpa [Db.setKey, Rows.set, hc] using hr
    exact fun st hst => vouched_of_key_eq hc.symm (hk r hr st hst)
  · refine h.keys c r ?_
    simpa [Db.setKey, Rows.set, Function.update_of_ne hc] using hr

theorem DbBacked.clearKey {key : String} (h : DbBacked τ db) : DbBacked τ (db.setKey key none) := by
  refine ⟨h.committed, h.pending, fun c r hr => ?_, h.keysPending⟩
  by_cases hc : c.key = key
  · simp [Db.setKey, Rows.set, hc] at hr
  · refine h.keys c r ?_
    simpa [Db.setKey, Rows.set, Function.update_of_ne hc] using hr

theorem DbBacked.completeKey {outcome : PaymentOutcome} (h : DbBacked τ db)
    (hv : Vouched τ call outcome.statusCode) :
    DbBacked τ (db.completeKey pid call.key outcome) := by
  unfold Db.completeKey
  split
  · exact h
  · next r hr =>
    refine ⟨h.committed, h.pending, h.keys, fun c q row hp => ?_⟩
    by_cases hc : c.key = call.key
    · rw [hc, Rows.write_pending_self] at hp
      cases hp
      obtain ⟨r₀, -, rfl⟩ := Option.map_eq_some_iff.mp hr
      intro st hst
      cases hst
      exact vouched_of_key_eq hc.symm hv
    · rw [Rows.write_pending_of_ne hc] at hp
      exact h.keysPending c q row hp

theorem DbBacked.writePayment (h : DbBacked τ db) (hrow : RowBacked τ order row) :
    DbBacked τ (db.writePayment pid order row) := by
  refine ⟨h.committed, fun k q r hp => ?_, h.keys, h.keysPending⟩
  by_cases hk : k = order
  · subst hk
    rw [show (db.writePayment pid k row).payments = db.payments.write pid k (some row) from rfl,
      Rows.write_pending_self] at hp
    cases hp
    exact hrow
  · rw [show (db.writePayment pid order row).payments = db.payments.write pid order (some row)
      from rfl, Rows.write_pending_of_ne hk] at hp
    exact h.pending k q r hp

theorem DbBacked.rollback (h : DbBacked τ db) : DbBacked τ (db.rollback pid) :=
  ⟨h.committed, fun k q r hp => h.pending k q r (Rows.rollback_pending_iff.mp hp).2, h.keys,
    fun c q r hp => h.keysPending c q r (Rows.rollback_pending_iff.mp hp).2⟩

theorem DbBacked.commit (h : DbBacked τ db) : DbBacked τ (db.commit pid) := by
  refine ⟨fun k r hr => h.read hr,
    fun k q r hp => h.pending k q r (Rows.commit_pending_iff.mp hp).2, fun c r hr => ?_,
    fun c q r hp => h.keysPending c q r (Rows.commit_pending_iff.mp hp).2⟩
  have hr : db.keys.read pid c.key = some r := hr
  unfold Rows.read at hr
  split at hr
  · next u v hp =>
    split at hr
    · subst hr
      exact h.keysPending c u r hp
    · exact h.keys c r hr
  · exact h.keys c r hr

theorem keyBacked_fresh {hash : String} {now : ℕ} :
    KeyBacked τ call (Idempotency.freshRow hash now) :=
  fun _ hst => by cases hst

/-- The answer that a stored row replays. -/
theorem opBacked_refusal {outcome : Idempotency.ReserveOutcome Body}
    (h : ∀ st body, outcome = .replay (some st) body → Vouched τ call st) :
    OpBacked τ call (refusal outcome) := by
  unfold refusal
  split
  · exact h _ _ rfl
  · exact fun he => by cases he
  · exact fun he => by cases he
  · exact fun he => by cases he
  · exact fun he => by cases he

theorem opBacked_reserved : OpBacked τ call (reserved call) := by
  cases call <;> trivial

/-- A description says 402 of a decline only. -/
theorem vouched_describe (hrow : RowBacked τ call.order row)
    (hspent : ∀ op order, call = .lifecycle op order → τ.Spent order) :
    Vouched τ call (describe call.order row).statusCode := by
  cases call with
  | authorize order amount currency token =>
    intro hst
    unfold describe at hst
    split at hst
    · next hd =>
      rw [RowBacked, if_pos hd] at hrow
      exact hrow
    · cases hst
  | lifecycle op order =>
    cases op with
    | void => exact fun _ => .inl (hspent _ _ rfl)
    | capture => trivial
    | refund => trivial

/-! ### The statements -/

/-- A gateway's reply is backed: what it authorized it has on record, and after a
lifecycle request that was processed nothing is held. -/
structure ReplyBacked (τ : Truth) (call : Call) (op : Op) (reply : GatewayReply) : Prop where
  approved : ∀ order amount currency token ref, op = .callAuthorize →
    call = .authorize order amount currency token → reply = .approved ref →
      τ.psp.answered (authKey order) = some (.authorization true ref)
  declined : ∀ order amount currency token ref, op = .callAuthorize →
    call = .authorize order amount currency token → reply = .declined ref →
      τ.psp.answered (authKey order) = some (.authorization false ref)
  processed : ∀ row kind order, op = .callGateway row → call = .lifecycle kind order →
    reply = .unavailable ∨ τ.Spent order

variable {cfg : Config} {now : ℕ} {reply : GatewayReply} {op' : Op}

theorem keyStep_backed (hdb : DbBacked τ db)
    (h : keyStep cfg now pid db call op = some (db', op')) :
    DbBacked τ db' ∧ OpBacked τ call op' := by
  unfold keyStep at h
  split at h
  · split at h
    · next r hr =>
      split at h
      · cases h
        refine ⟨hdb.setKey fun q hq => ?_, opBacked_reserved⟩
        unfold Idempotency.insertRow at hr
        split at hr
        · cases hr
          cases hq
          exact keyBacked_fresh
        · cases hr
      · cases h
    · cases h; exact ⟨hdb, trivial⟩
  · split at h
    · next outcome hj =>
      cases h
      refine ⟨hdb, opBacked_refusal fun st body ho => ?_⟩
      subst ho
      -- the verdict replays the committed row
      obtain ⟨r, hrow, hst⟩ := Idempotency.judge_replay hj
      exact hdb.keys call r hrow st hst
    · cases h; exact ⟨hdb, trivial⟩
  · split at h
    · split at h
      · next r ho =>
        cases h
        refine ⟨hdb.setKey fun q hq => ?_, opBacked_reserved⟩
        subst hq
        unfold Idempotency.takeOver at ho
        split at ho
        · cases ho
        · split at ho
          · cases ho
            exact keyBacked_fresh
          · cases ho
      · next r outcome hne ho =>
        cases h
        refine ⟨hdb, opBacked_refusal fun st body he => ?_⟩
        subst he
        unfold Idempotency.takeOver at ho
        split at ho
        · cases ho
        · split at ho <;> cases ho
    · cases h
  · cases h

theorem authorizeStep_backed {amount : ℤ} {currency token : String} (hdb : DbBacked τ db)
    (hop : OpBacked τ (.authorize order amount currency token) op)
    (hreply : ReplyBacked τ (.authorize order amount currency token) op reply)
    (h : authorizeStep reply pid db order amount currency token op = some (db', op')) :
    DbBacked τ db' ∧ OpBacked τ (.authorize order amount currency token) op' := by
  unfold authorizeStep at h
  split at h
  · split at h
    · cases h
      refine ⟨hdb, fun o a c t hc => ?_⟩
      cases hc
      exact hreply.approved _ _ _ _ _ rfl rfl rfl
    · cases h
      refine ⟨hdb, fun o a c t hc => ?_⟩
      cases hc
      exact hreply.declined _ _ _ _ _ rfl rfl rfl
    · cases h; exact ⟨hdb, fun he => by cases he⟩
    · cases h; exact ⟨hdb, fun he => by cases he⟩
  · next approved ref =>
    split at h
    · split at h
      · cases h
        exact ⟨hdb.rollback, fun kind o hc => by cases hc⟩
      · cases h
        have hans := hop order amount currency token rfl
        refine ⟨hdb.writePayment ?_, ?_⟩
        · cases approved with
          | true =>
            rw [RowBacked, if_neg (by simp [authorizedRow])]
            exact ⟨⟨ref, rfl, hans⟩, fun hne => absurd rfl hne⟩
          | false =>
            have hd : (authorizedRow amount currency token false ref).status = .declined := rfl
            rw [RowBacked, if_pos hd]
            exact ⟨ref, hans⟩
        · cases approved with
          | true => trivial
          | false => exact fun _ => ⟨ref, hans⟩
    · cases h
  · cases h
    exact ⟨⟨hdb.committed, hdb.pending, hdb.keys, hdb.keysPending⟩, fun hst => by cases hst⟩
  · cases h

theorem lifecycleStep_backed {kind : Lifecycle} (hdb : DbBacked τ db)
    (hop : OpBacked τ (.lifecycle kind order) op)
    (hreply : ReplyBacked τ (.lifecycle kind order) op reply)
    (habsent : op = .readPayment → kind = .void → db.payments.read pid order = none →
      order ∈ τ.voidedAbsent)
    (h : lifecycleStep reply pid db kind order op = some (db', op')) :
    DbBacked τ db' ∧ OpBacked τ (.lifecycle kind order) op' := by
  -- once nothing is held, whatever a void answers is backed
  have hvouch : τ.Spent order → ∀ st, Vouched τ (.lifecycle kind order) st := by
    intro hspent st
    cases kind with
    | void => exact fun _ => .inl hspent
    | capture => trivial
    | refund => trivial
  have hconcede : ∀ e, (kind = .void → τ.Released order) → Conceded τ (.lifecycle kind order) e := by
    intro e hrel _ o hc
    cases hc
    exact hrel rfl
  unfold lifecycleStep at h
  split at h
  · split at h
    · next hread =>
      cases h
      exact ⟨hdb, hconcede _ fun hk => .inr (.inr (habsent rfl hk hread))⟩
    · next row hread =>
      have hrow := hdb.read hread
      split at h
      · next htarget =>
        cases h
        refine ⟨hdb, ?_⟩
        cases kind with
        | void =>
          rw [RowBacked, if_neg (by rw [htarget]; simp [Lifecycle.target])] at hrow
          exact hvouch (hrow.2 (by rw [htarget]; simp [Lifecycle.target])) _
        | capture => trivial
        | refund => trivial
      · split at h
        · next hne =>
          cases h
          refine ⟨hdb, hconcede _ fun hk => ?_⟩
          subst hk
          by_cases hd : row.status = .declined
          · rw [RowBacked, if_pos hd] at hrow
            exact .inr (.inl hrow)
          · rw [RowBacked, if_neg hd] at hrow
            exact .inl (hrow.2 hne)
        · next hexp =>
          cases h
          refine ⟨hdb, fun k o hc => ?_⟩
          cases hc
          exact ⟨hrow, not_not.mp hexp⟩
  · next row =>
    have hspent : reply = .unavailable ∨ τ.Spent order := hreply.processed row kind order rfl rfl
    have hupdate : τ.Spent order → OpBacked τ (.lifecycle kind order) (.updatePayment row) := by
      intro hs k o hc
      cases hc
      exact hs
    split at h
    · cases h; exact ⟨hdb, fun he => by cases he⟩
    · have hs := hspent.resolve_left (by rintro ⟨⟩)
      split at h
      · cases h; exact ⟨hdb, hconcede _ fun _ => .inl hs⟩
      · cases h; exact ⟨hdb, hupdate hs⟩
    · cases h; exact ⟨hdb, hconcede _ fun _ => .inl (hspent.resolve_left (by rintro ⟨⟩))⟩
    · next hne _ _ =>
      cases h
      exact ⟨hdb, hupdate (hspent.resolve_left hne)⟩
  · next row =>
    have hs : τ.Spent order := hop kind order rfl
    have hstay : ∀ row', OpBacked τ (.lifecycle kind order) (.insertLedger row') := by
      intro row' k o hc
      cases hc
      exact hs
    split at h
    · split at h
      · cases h
        refine ⟨hdb, fun k o hc => ?_⟩
        cases hc
        exact hs
      · next current hcur =>
        split at h
        · next hexp =>
          cases h
          have hrow := hdb.committed order current hcur
          have hnd : current.status ≠ .declined := by
            rw [hexp]
            cases kind <;> simp [Lifecycle.expected]
          rw [RowBacked, if_neg hnd] at hrow
          refine ⟨hdb.writePayment ?_, ?_⟩
          · rw [RowBacked, if_neg (by cases kind <;> simp [Lifecycle.target])]
            exact ⟨hrow.1, fun _ => hs⟩
          · split
            · exact hvouch hs _
            · exact hstay row
        · cases h
          refine ⟨hdb, fun k o hc => ?_⟩
          cases hc
          exact hs
    · cases h
  · next row =>
    have hs : τ.Spent order := hop kind order rfl
    split at h
    · cases h
    · split at h
      · cases h
        refine ⟨⟨hdb.committed, hdb.pending, hdb.keys, hdb.keysPending⟩, fun k o hc => ?_⟩
        cases hc
        exact hs
      · cases h
        exact ⟨hdb.rollback, fun he => by cases he⟩
  · next row =>
    have hs : τ.Spent order := hop kind order rfl
    cases h
    exact ⟨⟨hdb.committed, hdb.pending, hdb.keys, hdb.keysPending⟩, hvouch hs _⟩
  · cases h

theorem closeStep_backed (hdb : DbBacked τ db) (hop : OpBacked τ call op)
    (h : closeStep pid db call op = some (db', op')) : DbBacked τ db' ∧ OpBacked τ call op' := by
  unfold closeStep at h
  split at h
  · split at h
    · cases h
      exact ⟨hdb.rollback, fun he => by cases he⟩
    · next row hread =>
      cases h
      exact ⟨hdb, vouched_describe (hdb.read hread) hop⟩
  · split at h
    · cases h
      exact ⟨hdb.clearKey, hop⟩
    · cases h
  · split at h
    · cases h
      exact ⟨hdb.completeKey hop, hop⟩
    · cases h
  · cases h
    exact ⟨hdb.commit, hop⟩
  · cases h

/-- **One statement** writes and answers only what is backed. -/
theorem opStep_backed (hdb : DbBacked τ db) (hop : OpBacked τ call op)
    (hreply : ReplyBacked τ call op reply)
    (habsent : op = .readPayment → ∀ o, call = .lifecycle .void o →
      db.payments.read pid o = none → o ∈ τ.voidedAbsent)
    (h : opStep cfg now reply pid db call op = some (db', op')) :
    DbBacked τ db' ∧ OpBacked τ call op' := by
  unfold opStep at h
  split at h
  · exact keyStep_backed hdb h
  · exact keyStep_backed hdb h
  · exact keyStep_backed hdb h
  · exact closeStep_backed hdb hop h
  · exact closeStep_backed hdb hop h
  · exact closeStep_backed hdb hop h
  · exact closeStep_backed hdb hop h
  · cases call with
    | authorize order amount currency token => exact authorizeStep_backed hdb hop hreply h
    | lifecycle kind order =>
      refine lifecycleStep_backed hdb hop hreply (fun ho hk hread => ?_) h
      subst hk
      exact habsent ho order rfl hread

end

/-! ### The service and the processor -/

/-- The requests so far. -/
def Gateway.calls (g : Gateway) : List Call := g.payment.procs.map (·.call)

/-- An authorization of the order. -/
def Call.authorizes (call : Call) (order : OrderId) : Prop :=
  ∃ amount currency token, call = .authorize order amount currency token

structure Backed (g : Gateway) : Prop where
  db : DbBacked g.truth g.payment.db
  procs : ∀ (pid : ℕ) (p : Proc), g.payment.procs[pid]? = some p → OpBacked g.truth p.call p.op
  known : ∀ key ref, g.psp.answered key = some (.authorization true ref) → g.psp.refs ref ≠ none
  moved : ∀ kind order a, g.psp.answered (Call.lifecycle kind order).key = some a →
    g.truth.Spent order
  auth : ∀ order a, g.psp.answered (authKey order) = some a →
    (∃ approved ref, a = .authorization approved ref) ∧ ∃ call ∈ g.calls, call.authorizes order

section

variable {cfg : Config} {g g' : Gateway} {pid : ℕ} {p : Proc} {call : Call}

/-- An operation goes on; the requests stay. -/
theorem calls_set {procs : List Proc} {op : Op} (hp : procs[pid]? = some p) :
    (procs.set pid { p with op := op }).map (·.call) = procs.map (·.call) := by
  refine List.ext_getElem? fun n => ?_
  rw [List.getElem?_map, List.getElem?_map, List.getElem?_set]
  by_cases hn : pid = n
  · subst hn
    obtain ⟨hlt, rfl⟩ := List.getElem?_eq_some_iff.mp hp
    simp [hlt]
  · simp [hn]

/-- The book has not changed, and the operation and the tables are still backed. -/
theorem Backed.moveOn {db : Db} {op : Op} (hb : Backed g) (hp : g.payment.procs[pid]? = some p)
    (hdb : DbBacked g.truth db) (hop : OpBacked g.truth p.call op) :
    Backed { g with payment := ⟨db, g.payment.procs.set pid { p with op := op }⟩ } := by
  refine ⟨hdb, fun n q hq => ?_, hb.known, hb.moved, fun order a ha => ?_⟩
  · rw [List.getElem?_set] at hq
    split at hq
    · split at hq
      · cases hq
        exact hop
      · cases hq
    · exact hb.procs n q hq
  · obtain ⟨hshape, hcall⟩ := hb.auth order a ha
    exact ⟨hshape, by rwa [Gateway.calls, calls_set hp]⟩

/-- The history of the voids grows. -/
theorem Backed.note (hb : Backed g) (orders : List OrderId) :
    Backed { g with voidedAbsent := g.voidedAbsent ++ orders } ∧
      g.truth.Le { g with voidedAbsent := g.voidedAbsent ++ orders }.truth := by
  have hle : g.truth.Le { g with voidedAbsent := g.voidedAbsent ++ orders }.truth :=
    ⟨fun _ _ h => h, fun _ st h hne => ⟨st, h, hne⟩, fun _ h => h,
      fun _ h => List.mem_append_left _ h⟩
  exact ⟨⟨hb.db.mono hle, fun n q hq => (hb.procs n q hq).mono hle, hb.known,
    fun kind order a ha => hle.isSpent (hb.moved kind order a ha), hb.auth⟩, hle⟩

/-- A request arrives. -/
theorem Backed.request (hb : Backed g) (call : Call) : Backed (g.request call) := by
  refine ⟨hb.db, fun n q hq => ?_, hb.known, hb.moved, fun order a ha => ?_⟩
  · have hq : (g.payment.procs ++ [{ call := call }])[n]? = some q := hq
    rw [List.getElem?_append] at hq
    split at hq
    · exact hb.procs n q hq
    · rw [List.getElem?_singleton] at hq
      split at hq
      · cases hq; trivial
      · cases hq
  · obtain ⟨hshape, c, hc, hauth⟩ := hb.auth order a ha
    refine ⟨hshape, c, ?_, hauth⟩
    simp only [Gateway.calls, Gateway.request, List.map_append]
    exact List.mem_append_left _ hc

/-- A new entry in the processor's book. -/
theorem Psp.record_answered {psp : Psp} {key key' : String} {a : PspAnswer} {ref : String}
    {st : Option AuthState} :
    (psp.record key a ref st).answered key' = if key' = key then some a else psp.answered key' := by
  by_cases h : key' = key
  · subst h; simp [Psp.record]
  · simp [Psp.record, h]

theorem Psp.record_refs {psp : Psp} {key : String} {a : PspAnswer} {ref ref' : String}
    {st : AuthState} :
    (psp.record key a ref (some st)).refs ref' = if ref' = ref then some st else psp.refs ref' := by
  by_cases h : ref' = ref
  · subst h; simp [Psp.record]
  · simp [Psp.record, h]

/-- The book grows by an answer under a new key, about a reference that is new or moves on. -/
theorem le_record {key : String} (ref : String) (a : PspAnswer) (st : Option AuthState)
    (hnew : g.psp.answered key = none)
    (hst : ∀ s, st = some s → g.psp.refs ref = none ∨ s ≠ .authorized) :
    g.truth.Le { g with psp := g.psp.record key a ref st }.truth := by
  refine ⟨fun k b hk => ?_, fun r s hr hne => ?_, fun r hr => ?_, fun _ h => h⟩
  · show (g.psp.record key a ref st).answered k = some b
    rw [Psp.record_answered]
    split
    · next he =>
      have hk : g.psp.answered k = some b := hk
      rw [he, hnew] at hk
      cases hk
    · exact hk
  · cases st with
    | none => exact ⟨s, hr, hne⟩
    | some t =>
      show ∃ st', (g.psp.record key a ref (some t)).refs r = some st' ∧ _
      rw [Psp.record_refs]
      split
      · next he =>
        refine ⟨t, rfl, ?_⟩
        rcases hst t rfl with hnone | hne'
        · have hr : g.psp.refs r = some s := hr
          rw [he, hnone] at hr
          cases hr
        · exact hne'
      · exact ⟨s, hr, hne⟩
  · cases st with
    | none => exact hr
    | some t =>
      show (g.psp.record key a ref (some t)).refs r ≠ none
      rw [Psp.record_refs]
      split
      · simp
      · exact hr

/-- The processor's part of an authorization. -/
theorem authorize_backed {order : OrderId} {amount : ℤ} {currency token : String}
    {approved : Bool} {fresh : String} {psp : Psp} {reply : GatewayReply} (hb : Backed g)
    (hp : g.payment.procs[pid]? = some p) (hc : p.call = .authorize order amount currency token)
    (hfresh : g.psp.refs fresh = none)
    (h : g.psp.authorize (authKey order) approved fresh = (psp, reply)) :
    Backed { g with psp := psp } ∧ g.truth.Le { g with psp := psp }.truth ∧
      (∀ ref, reply = .approved ref → psp.answered (authKey order) = some (.authorization true ref)) ∧
      (∀ ref, reply = .declined ref →
        psp.answered (authKey order) = some (.authorization false ref)) := by
  unfold Psp.authorize at h
  split at h
  · next answer ha =>
    -- a replay of what the book says
    cases h
    obtain ⟨⟨b, r, rfl⟩, -⟩ := hb.auth order _ ha
    refine ⟨hb, .refl _, fun ref he => ?_, fun ref he => ?_⟩
    · cases b <;> cases he
      exact ha
    · cases b <;> cases he
      exact ha
  · next hnew =>
    cases h
    have hle := le_record fresh (.authorization approved fresh)
      (if approved then some .authorized else none) hnew fun _ _ => .inl hfresh
    refine ⟨⟨hb.db.mono hle, fun n q hq => (hb.procs n q hq).mono hle, ?_, ?_, ?_⟩, hle, ?_, ?_⟩
    · intro key ref hk
      simp only [Psp.record_answered] at hk
      split at hk
      · cases hk
        simp [Psp.record]
      · exact hle.known ref (hb.known key ref hk)
    · intro kind o a hk
      simp only [Psp.record_answered, if_neg authKey_ne_lifecycle.symm] at hk
      exact hle.isSpent (hb.moved kind o a hk)
    · intro o a hk
      simp only [Psp.record_answered] at hk
      split at hk
      · next he =>
        cases hk
        cases authKey_inj he
        refine ⟨⟨approved, fresh, rfl⟩, p.call, ?_, amount, currency, token, hc⟩
        exact List.mem_map_of_mem (List.mem_of_getElem? hp)
      · exact hb.auth o a hk
    · intro ref he
      show (g.psp.record _ _ _ _).answered _ = _
      rw [Psp.record_answered, if_pos rfl]
      cases approved <;> cases he
      rfl
    · intro ref he
      show (g.psp.record _ _ _ _).answered _ = _
      rw [Psp.record_answered, if_pos rfl]
      cases approved <;> cases he
      rfl

/-- The processor's part of a lifecycle request: processed, it leaves nothing held. -/
theorem lifecycle_backed {order : OrderId} {kind : Lifecycle} {row : PaymentRow} {psp : Psp}
    {reply : GatewayReply} (hb : Backed g) (hrow : RowBacked g.truth order row)
    (hexp : row.status = kind.expected)
    (h : g.psp.lifecycle (Call.lifecycle kind order).key (row.paymentIntentId.getD "")
      kind.pspExpected kind.pspTarget = (psp, reply)) :
    Backed { g with psp := psp } ∧ g.truth.Le { g with psp := psp }.truth ∧
      Truth.Spent { g with psp := psp }.truth order := by
  have hnd : row.status ≠ .declined := by
    rw [hexp]
    cases kind <;> simp [Lifecycle.expected]
  rw [RowBacked, if_neg hnd] at hrow
  obtain ⟨⟨ref, href, happ⟩, hspent⟩ := hrow
  rw [href, Option.getD_some] at h
  have htarget : kind.pspTarget ≠ .authorized := by cases kind <;> simp [Lifecycle.pspTarget]
  unfold Psp.lifecycle at h
  split at h
  · next a ha =>
    cases h
    exact ⟨hb, .refl _, hb.moved kind order a ha⟩
  · next hnew =>
    split at h
    · next hnone => exact absurd hnone (hb.known _ ref happ)
    · next st hst =>
      split at h
      · cases h
        have hle := le_record ref (.moved ref kind.pspTarget) (some kind.pspTarget) hnew
          fun s hs => .inr (Option.some.inj hs ▸ htarget)
        have hspent' : Truth.Spent { g with
            psp := g.psp.record (Call.lifecycle kind order).key (.moved ref kind.pspTarget) ref
              (some kind.pspTarget) }.truth order := by
          refine ⟨ref, kind.pspTarget, hle.answered _ _ happ, ?_, htarget⟩
          exact Psp.record_refs.trans (if_pos rfl)
        refine ⟨⟨hb.db.mono hle, fun n q hq => (hb.procs n q hq).mono hle, ?_, ?_, ?_⟩, hle, hspent'⟩
        · intro key r hk
          simp only [Psp.record_answered] at hk
          split at hk
          · cases hk
          · exact hle.known r (hb.known key r hk)
        · intro k o a hk
          simp only [Psp.record_answered] at hk
          split at hk
          · next he =>
            have ho : o = order := (key_inj he).1
            subst ho
            exact hspent'
          · exact hle.isSpent (hb.moved k o a hk)
        · intro o a hk
          simp only [Psp.record_answered, if_neg authKey_ne_lifecycle] at hk
          exact hb.auth o a hk
      · next hne =>
        cases h
        refine ⟨hb, .refl _, ?_⟩
        by_cases hauth : st = .authorized
        · -- only a refund asks for another state, and its row is captured
          have hkind : kind = .refund := by
            subst hauth
            cases kind <;> simp [Lifecycle.pspExpected] at hne ⊢
          subst hkind
          exact hspent (by rw [hexp]; simp [Lifecycle.expected])
        · exact ⟨ref, st, happ, hst, hauth⟩

/-- A statement or a gateway's reply, with what backs it. -/
theorem run_backed {now : ℕ} {reply : GatewayReply} {s : System} (hb : Backed g)
    (hp : g.payment.procs[pid]? = some p) (hreply : ReplyBacked g.truth p.call p.op reply)
    (habsent : p.op = .readPayment → ∀ o, p.call = .lifecycle .void o →
      g.payment.db.payments.read pid o = none → o ∈ g.voidedAbsent)
    (h : step cfg g.payment (.run pid now reply) = some s) :
    Backed { g with payment := s } ∧ s.procs.map (·.call) = g.calls := by
  simp only [step, hp] at h
  obtain ⟨⟨db', op'⟩, hstep, rfl⟩ := Option.map_eq_some_iff.mp h
  obtain ⟨hdb, hop⟩ := opStep_backed hb.db (hb.procs pid p hp) hreply habsent hstep
  exact ⟨hb.moveOn hp hdb hop, calls_set hp⟩

/-- A reply that claims nothing. -/
theorem replyBacked_unavailable {τ : Truth} {op : Op} : ReplyBacked τ call op .unavailable :=
  ⟨nofun, nofun, fun _ _ _ _ _ => .inl rfl⟩

/-- Away from the gateway call no reply is read. -/
theorem replyBacked_of_no_call {approved : Bool} {fresh : String} {reply : GatewayReply}
    (h : gatewayCall g.psp p approved fresh = none) : ReplyBacked g.truth p.call p.op reply := by
  refine ⟨fun order amount currency token ref ho hc _ => ?_,
    fun order amount currency token ref ho hc _ => ?_, fun row kind order ho hc => ?_⟩
  · simp [gatewayCall, ho, hc] at h
  · simp [gatewayCall, ho, hc] at h
  · simp [gatewayCall, ho, hc] at h

/-- The processor's part of a gateway call. -/
theorem gatewayCall_backed {approved : Bool} {fresh : String} {psp : Psp} {reply : GatewayReply}
    (hb : Backed g) (hp : g.payment.procs[pid]? = some p) (hfresh : g.psp.refs fresh = none)
    (h : gatewayCall g.psp p approved fresh = some (psp, reply)) :
    Backed { g with psp := psp } ∧ g.truth.Le { g with psp := psp }.truth ∧
      ReplyBacked { g with psp := psp }.truth p.call p.op reply ∧ p.op ≠ .readPayment := by
  obtain ⟨call, op⟩ := p
  unfold gatewayCall at h
  split at h
  · next order amount currency token hop hcall =>
    cases hop
    cases hcall
    have h := Option.some.inj h
    obtain ⟨hb', hle, happ, hdec⟩ := authorize_backed hb hp rfl hfresh h
    refine ⟨hb', hle, ⟨fun o a c t ref _ hc he => ?_, fun o a c t ref _ hc he => ?_, nofun⟩, nofun⟩
    · cases hc; exact happ ref he
    · cases hc; exact hdec ref he
  · next row kind order hop hcall =>
    cases hop
    cases hcall
    obtain ⟨hrow, hexp⟩ := hb.procs pid _ hp kind order rfl
    obtain ⟨hb', hle, hspent⟩ := lifecycle_backed hb hrow hexp (Option.some.inj h)
    refine ⟨hb', hle, ⟨nofun, nofun, fun row k o _ hc => ?_⟩, nofun⟩
    cases hc
    exact .inr hspent
  · cases h

/-- **One step of the service and the processor.** -/
theorem Backed.step {e : GatewayEvent} (hb : Backed g) (h : gatewayStep cfg e g = some g') :
    Backed g' ∧ g.truth.Le g'.truth ∧ g'.calls = g.calls := by
  cases e with
  | statement pid now =>
    simp only [gatewayStep] at h
    split at h
    · cases h
    · next p hp =>
      split at h
      · cases h
      · next hcall =>
        obtain ⟨s, hs, rfl⟩ := Option.map_eq_some_iff.mp h
        obtain ⟨hb', hle⟩ := hb.note (absentVoid g pid).toList
        have hnone : gatewayCall g.psp p true "" = none := by simpa using hcall
        have hgo := run_backed hb' hp
          (replyBacked_of_no_call hnone) (fun ho o hc hread => ?_) hs
        · exact ⟨hgo.1, hle, hgo.2⟩
        · have hpeq : p = ⟨.lifecycle .void o, .readPayment⟩ := by
            obtain ⟨call, op⟩ := p
            cases ho
            cases hc
            rfl
          have habs : absentVoid g pid = some o := by
            have hread : g.payment.db.payments.read pid o = none := hread
            simp [absentVoid, hp, hpeq, hread]
          rw [habs]
          exact List.mem_append_right _ (by simp)
  | attempt pid fate approved fresh =>
    simp only [gatewayStep] at h
    split at h
    · cases h
    · next p hp =>
      split at h
      · cases h
      · next psp reply hcall =>
        split at h
        · cases h
        · next hfresh =>
          obtain ⟨hb', hle, hreply, hop⟩ := gatewayCall_backed hb hp (not_not.mp hfresh) hcall
          cases fate with
          | delivered =>
            obtain ⟨s, hs, rfl⟩ := Option.map_eq_some_iff.mp h
            have hgo := run_backed hb' hp hreply
              (fun ho => absurd ho hop) hs
            exact ⟨hgo.1, hle, hgo.2⟩
          | lost =>
            cases h
            exact ⟨hb', hle, rfl⟩
          | givenUp =>
            obtain ⟨s, hs, rfl⟩ := Option.map_eq_some_iff.mp h
            have hgo := run_backed hb hp replyBacked_unavailable (fun ho => absurd ho hop) hs
            exact ⟨hgo.1, .refl _, hgo.2⟩
  | crash pid =>
    simp only [gatewayStep, Payment.step] at h
    split at h
    · cases h
    · next p hp =>
      cases h
      exact ⟨hb.moveOn hp hb.db.rollback trivial, .refl _, calls_set hp⟩
  | purge key now orphanTtl =>
    simp only [gatewayStep, Payment.step] at h
    split at h
    · cases h
      exact ⟨⟨hb.db.clearKey, hb.procs, hb.known, hb.moved, hb.auth⟩, .refl _, rfl⟩
    · cases h

theorem backed_empty : Backed .empty where
  db := by
    constructor
    · intro order row h
      cases h
    · intro order pid row h
      cases h
    · intro call row h
      cases h
    · intro call pid row h
      cases h
  procs := by
    intro n q hq
    simp [Gateway.empty, System.empty] at hq
  known := by
    intro key ref h
    cases h
  moved := by
    intro kind order a h
    cases h
  auth := by
    intro order a h
    cases h

end

end Payment
