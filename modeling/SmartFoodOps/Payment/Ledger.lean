/-
The ledger tells the truth about the payments.

Money moves in the final transaction of an operation: the guarded UPDATE of the
payments row, the pair of ledger entries, and the commit.  What a row in a given
status ought to have in the ledger is `booked`; the invariant says that the
committed ledger of every order is exactly that, and what every operation in
progress has uncommitted.  The idempotency rows play no part in it: the guard of
the UPDATE alone keeps money from moving twice.

* `opStep_kept` — one statement keeps the books and its operation's standing;
* `Undisturbed` — and disturbs no other operation's;
* `ledger_truth` — hence the books are right in every reachable state.
-/
import SmartFoodOps.Payment.Service
import Mathlib.Algebra.Ring.Int.Defs

open Machine Transaction

namespace Payment

open Dispatch (OrderId)

/-! ### What ought to be in the ledger -/

def opKey (order : OrderId) (op : Lifecycle) : String := order ++ ":" ++ op.name

/-- The entries of one money movement of a payment. -/
def movement (op : Lifecycle) (order : OrderId) (row : PaymentRow) : List LedgerEntry :=
  match op.ledger with
  | some accounts => ledgerPair order (opKey order op) accounts row.amountCents row.currency
  | none => []

/-- What a payment's status says has moved. -/
def booked (order : OrderId) (row : PaymentRow) : List LedgerEntry :=
  match row.status with
  | .captured => movement .capture order row
  | .refunded => movement .capture order row ++ movement .refund order row
  | _ => []

def bookedAt (order : OrderId) : Option PaymentRow → List LedgerEntry
  | none => []
  | some row => booked order row

/-- The committed ledger of every order is what its payment says. -/
def Books (db : Db) : Prop :=
  ∀ order, db.ledger.committed.filter (fun e => e.orderId = order) =
    bookedAt order (db.payments.committed order)

theorem orderId_of_mem_movement {op : Lifecycle} {order : OrderId} {row : PaymentRow}
    {e : LedgerEntry} (h : e ∈ movement op order row) : e.orderId = order := by
  cases op <;> simp [movement, Lifecycle.ledger, ledgerPair] at h
  · rcases h with rfl | rfl <;> rfl
  · rcases h with rfl | rfl <;> rfl

theorem orderId_of_mem_booked {order : OrderId} {row : PaymentRow} {e : LedgerEntry}
    (h : e ∈ booked order row) : e.orderId = order := by
  unfold booked at h
  split at h
  · exact orderId_of_mem_movement h
  · rcases List.mem_append.mp h with h | h
    · exact orderId_of_mem_movement h
    · exact orderId_of_mem_movement h
  · cases h

/-- A lifecycle move adds its own movement to what was booked. -/
theorem booked_move {op : Lifecycle} {order : OrderId} {row : PaymentRow}
    (h : row.status = op.expected) :
    booked order { row with status := op.target } = booked order row ++ movement op order row := by
  cases op <;> simp [booked, h, Lifecycle.target, Lifecycle.expected, movement, Lifecycle.ledger]

/-- Only the amount and the currency of a payment are booked. -/
theorem movement_congr {op : Lifecycle} {order : OrderId} {r q : PaymentRow}
    (ha : r.amountCents = q.amountCents) (hc : r.currency = q.currency) :
    movement op order r = movement op order q := by
  simp [movement, ha, hc]

/-! ### What an operation in progress has uncommitted -/

/-- Nothing. -/
def Idle (db : Db) (pid : ℕ) : Prop :=
  db.payments.Idle pid ∧ db.ledger.pending pid = []

/-- Two rows that book the same amounts. -/
def SameAmount (r q : PaymentRow) : Prop :=
  r.amountCents = q.amountCents ∧ r.currency = q.currency

/-- A new row for its order and no other, together with the entries that it adds to
what is booked. -/
structure Moved (db : Db) (pid : ℕ) (order : OrderId) (row : PaymentRow) : Prop where
  written : db.payments.pending order = some (pid, some row)
  only : ∀ k v, db.payments.pending k = some (pid, v) → k = order
  posted : booked order row =
    bookedAt order (db.payments.committed order) ++ db.ledger.pending pid
  amount : ∀ r, db.payments.committed order = some r → SameAmount row r

/-- A lifecycle move whose entries are still to come. -/
structure Half (db : Db) (pid : ℕ) (order : OrderId) (op : Lifecycle) (row : PaymentRow) :
    Prop where
  before : ∃ r, db.payments.committed order = some r ∧ r.status = op.expected ∧
    db.payments.pending order = some (pid, some { r with status := op.target }) ∧
    SameAmount row r
  only : ∀ k v, db.payments.pending k = some (pid, v) → k = order
  none_posted : db.ledger.pending pid = []

/-- The row that the operation read is there, whatever its status by now. -/
def Seen (db : Db) (order : OrderId) (row : PaymentRow) : Prop :=
  ∃ r, db.payments.committed order = some r ∧ SameAmount row r

/-- The standing of an operation, by where it is. -/
def Standing (db : Db) (pid : ℕ) (call : Call) : Op → Prop
  | .callGateway row | .updatePayment row => Idle db pid ∧ Seen db call.order row
  | .insertLedger row => ∃ op, call = .lifecycle op call.order ∧ Half db pid call.order op row
  | .stageEvent _ | .stageAuthorized _ => ∃ row, Moved db pid call.order row
  | .completeKey _ | .commit _ => Idle db pid ∨ ∃ row, Moved db pid call.order row
  | _ => Idle db pid

/-- Nothing that the standing of `pid` rests on has changed. -/
structure Undisturbed (pid : ℕ) (db db' : Db) : Prop where
  pending : ∀ k v, db'.payments.pending k = some (pid, v) ↔ db.payments.pending k = some (pid, v)
  ledger : db'.ledger.pending pid = db.ledger.pending pid
  held : ∀ k v, db.payments.pending k = some (pid, v) →
    db'.payments.committed k = db.payments.committed k
  amount : ∀ k r, db.payments.committed k = some r →
    ∃ r', db'.payments.committed k = some r' ∧ SameAmount r r'

theorem SameAmount.refl (r : PaymentRow) : SameAmount r r := ⟨rfl, rfl⟩

theorem SameAmount.trans {r q s : PaymentRow} (h : SameAmount r q) (h' : SameAmount q s) :
    SameAmount r s :=
  ⟨h.1.trans h'.1, h.2.trans h'.2⟩

section

variable {db db' : Db} {pid : ℕ} {call : Call} {order : OrderId} {row : PaymentRow}
  {op : Lifecycle}

theorem Idle.frame (h : Idle db pid) (hu : Undisturbed pid db db') : Idle db' pid := by
  refine ⟨fun k v hk => ?_, hu.ledger.trans h.2⟩
  exact h.1 k v ((hu.pending k v).mp hk)

theorem Moved.frame (h : Moved db pid order row) (hu : Undisturbed pid db db') :
    Moved db' pid order row := by
  have hheld := hu.held order _ h.written
  refine ⟨(hu.pending _ _).mpr h.written, ?_, ?_, ?_⟩
  · intro k v hk
    exact h.only k v ((hu.pending k v).mp hk)
  · rw [hheld, hu.ledger]
    exact h.posted
  · rw [hheld]
    exact h.amount

theorem Half.frame (h : Half db pid order op row) (hu : Undisturbed pid db db') :
    Half db' pid order op row := by
  obtain ⟨r, hr, hs, hp, ha⟩ := h.before
  refine ⟨⟨r, ?_, hs, (hu.pending _ _).mpr hp, ha⟩, ?_, hu.ledger.trans h.none_posted⟩
  · rw [hu.held order _ hp]
    exact hr
  · intro k v hk
    exact h.only k v ((hu.pending k v).mp hk)

theorem Seen.frame (h : Seen db order row) (hu : Undisturbed pid db db') : Seen db' order row := by
  obtain ⟨r, hr, ha⟩ := h
  obtain ⟨r', hr', ha'⟩ := hu.amount order r hr
  exact ⟨r', hr', ha.trans ha'⟩

/-- **Frame rule.** -/
theorem Standing.frame {at_ : Op} (h : Standing db pid call at_) (hu : Undisturbed pid db db') :
    Standing db' pid call at_ := by
  unfold Standing at h ⊢
  split at h
  · exact ⟨h.1.frame hu, h.2.frame hu⟩
  · exact ⟨h.1.frame hu, h.2.frame hu⟩
  · obtain ⟨op, hop, h⟩ := h
    exact ⟨op, hop, h.frame hu⟩
  · obtain ⟨row, h⟩ := h
    exact ⟨row, h.frame hu⟩
  · obtain ⟨row, h⟩ := h
    exact ⟨row, h.frame hu⟩
  · rcases h with h | ⟨row, h⟩
    · exact .inl (h.frame hu)
    · exact .inr ⟨row, h.frame hu⟩
  · rcases h with h | ⟨row, h⟩
    · exact .inl (h.frame hu)
    · exact .inr ⟨row, h.frame hu⟩
  · exact h.frame hu

end

/-! ### What one statement does to the money -/

/-- The payments and the ledger are as they were. -/
def SameMoney (db db' : Db) : Prop :=
  db'.payments = db.payments ∧ db'.ledger = db.ledger

section

variable {db db' : Db} {pid other : ℕ} {order : OrderId} {row : PaymentRow}

theorem SameMoney.undisturbed (h : SameMoney db db') (pid : ℕ) : Undisturbed pid db db' := by
  obtain ⟨hp, hl⟩ := h
  refine ⟨fun k v => by rw [hp], by rw [hl], fun k v _ => by rw [hp], fun k r hr => ?_⟩
  exact ⟨r, by rw [hp]; exact hr, .refl r⟩

theorem SameMoney.books (h : SameMoney db db') (hb : Books db) : Books db' := by
  intro order
  rw [h.1, h.2]
  exact hb order

theorem sameMoney_completeKey {key : String} {outcome : PaymentOutcome} :
    SameMoney db (db.completeKey pid key outcome) := by
  unfold Db.completeKey
  split
  · exact ⟨rfl, rfl⟩
  · exact ⟨rfl, rfl⟩

theorem undisturbed_writePayment (hfree : db.payments.free pid order) (hne : other ≠ pid) :
    Undisturbed other db (db.writePayment pid order row) :=
  ⟨fun _ _ => Rows.write_pending_other hfree hne, rfl, fun _ _ _ => rfl,
    fun _ r hr => ⟨r, hr, .refl r⟩⟩

theorem undisturbed_insertLedger {entries : List LedgerEntry} (hne : other ≠ pid) :
    Undisturbed other db (db.insertLedger pid entries) :=
  ⟨fun _ _ => .rfl, Log.append_pending_other hne, fun _ _ _ => rfl, fun _ r hr => ⟨r, hr, .refl r⟩⟩

theorem undisturbed_rollback (hne : other ≠ pid) : Undisturbed other db (db.rollback pid) := by
  refine ⟨fun k v => ?_, Log.rollback_pending_other hne, fun _ _ _ => rfl,
    fun _ r hr => ⟨r, hr, .refl r⟩⟩
  rw [show (db.rollback pid).payments = db.payments.rollback pid from rfl,
    Rows.rollback_pending_iff]
  exact and_iff_right hne

theorem idle_rollback : Idle (db.rollback pid) pid :=
  ⟨Rows.idle_rollback, Log.rollback_pending_self⟩

theorem idle_commit : Idle (db.commit pid) pid :=
  ⟨Rows.idle_commit, Log.commit_pending_self⟩

/-- The committed payments after a commit. -/
theorem Idle.commit_payments (h : Idle db pid) (k : OrderId) :
    (db.commit pid).payments.committed k = db.payments.committed k :=
  Rows.commit_committed_of_not_pending (h.1 k)

theorem Moved.commit_payments (h : Moved db pid order row) (k : OrderId) :
    (db.commit pid).payments.committed k =
      if k = order then some row else db.payments.committed k := by
  split
  · next hk =>
    subst hk
    exact Rows.commit_committed_of_pending h.written
  · next hk => exact Rows.commit_committed_of_not_pending fun v hv => hk (h.only k v hv)

/-- A commit disturbs nobody, if it only moves money that is booked. -/
theorem undisturbed_commit (hne : other ≠ pid)
    (h : Idle db pid ∨ ∃ row, Moved db pid order row) :
    Undisturbed other db (db.commit pid) := by
  refine ⟨fun k v => ?_, Log.commit_pending_other hne,
    fun k v hk => Rows.commit_committed_other hne hk, fun k r hr => ?_⟩
  · rw [show (db.commit pid).payments = db.payments.commit pid from rfl, Rows.commit_pending_iff]
    exact and_iff_right hne
  · rcases h with h | ⟨row, h⟩
    · exact ⟨r, (h.commit_payments k).trans hr, .refl r⟩
    · rw [h.commit_payments k]
      split
      · next hk =>
        subst hk
        obtain ⟨ha, hc⟩ := h.amount r hr
        exact ⟨row, rfl, ha.symm, hc.symm⟩
      · exact ⟨r, hr, .refl r⟩

/-- A commit keeps the books. -/
theorem books_commit (hb : Books db) (h : Idle db pid ∨ ∃ row, Moved db pid order row) :
    Books (db.commit pid) := by
  intro k
  have hl : (db.commit pid).ledger.committed = db.ledger.committed ++ db.ledger.pending pid := rfl
  rw [hl, List.filter_append, hb k]
  rcases h with h | ⟨row, h⟩
  · rw [h.2, h.commit_payments k, List.filter_nil, List.append_nil]
  · rw [h.commit_payments k]
    -- the entries to come are all of the moved order
    have hmem : ∀ e ∈ db.ledger.pending pid, e.orderId = order := by
      intro e he
      refine @orderId_of_mem_booked _ row _ ?_
      rw [h.posted]
      exact List.mem_append_right _ he
    split
    · next hk =>
      subst hk
      rw [List.filter_eq_self.mpr fun e he => by simpa using hmem e he]
      exact h.posted.symm
    · next hk =>
      rw [List.filter_eq_nil_iff.mpr fun e he => ?_, List.append_nil]
      rw [hmem e he]
      simpa using Ne.symm hk

end

/-- What one statement of `pid` owes to everybody. -/
structure Kept (db db' : Db) (pid : ℕ) (call : Call) (op' : Op) : Prop where
  standing : Standing db' pid call op'
  books : Books db'
  others : ∀ other, other ≠ pid → Undisturbed other db db'

section

variable {cfg : Config} {now : ℕ} {reply : GatewayReply} {db db' : Db} {pid : ℕ} {call : Call}
  {op op' : Op}

/-- A statement that moves no money. -/
theorem Kept.same (hm : SameMoney db db') (hb : Books db) (hs : Standing db pid call op') :
    Kept db db' pid call op' :=
  ⟨hs.frame (hm.undisturbed pid), hm.books hb, fun other _ => hm.undisturbed other⟩

theorem keyStep_kept (hb : Books db) (hi : Idle db pid)
    (h : keyStep cfg now pid db call op = some (db', op')) : Kept db db' pid call op' := by
  have hres : Standing db pid call (reserved call) := by cases call <;> exact hi
  have href : ∀ o, Standing db pid call (refusal o) := by
    intro o
    unfold refusal
    split <;> exact hi
  cases op with
  | insertKey =>
    simp only [keyStep] at h
    split at h
    · split at h
      · cases h; exact .same ⟨rfl, rfl⟩ hb hres
      · cases h
    · cases h; exact .same ⟨rfl, rfl⟩ hb hi
  | selectKey =>
    simp only [keyStep] at h
    split at h
    · cases h; exact .same ⟨rfl, rfl⟩ hb (href _)
    · cases h; exact .same ⟨rfl, rfl⟩ hb hi
  | takeOverKey expected =>
    simp only [keyStep] at h
    split at h
    · split at h
      · cases h; exact .same ⟨rfl, rfl⟩ hb hres
      · cases h; exact .same ⟨rfl, rfl⟩ hb (href _)
    · cases h
  | _ => cases h

theorem closeStep_kept (hb : Books db) (hs : Standing db pid call op)
    (h : closeStep pid db call op = some (db', op')) : Kept db db' pid call op' := by
  cases op with
  | readExisting =>
    simp only [closeStep] at h
    split at h
    · cases h
      exact ⟨idle_rollback, hb, fun other hne => undisturbed_rollback hne⟩
    · cases h; exact .same ⟨rfl, rfl⟩ hb (.inl hs)
  | releaseKey error =>
    simp only [closeStep] at h
    split at h
    · cases h; exact .same ⟨rfl, rfl⟩ hb hs
    · cases h
  | completeKey outcome =>
    simp only [closeStep] at h
    split at h
    · cases h; exact .same sameMoney_completeKey hb hs
    · cases h
  | commit outcome =>
    cases h
    exact ⟨idle_commit, books_commit hb hs, fun other hne => undisturbed_commit hne hs⟩
  | _ => cases h

theorem authorizeStep_kept {order : OrderId} {amount : ℤ} {currency cardToken : String}
    (hb : Books db) (hs : Standing db pid (.authorize order amount currency cardToken) op)
    (h : authorizeStep reply pid db order amount currency cardToken op = some (db', op')) :
    Kept db db' pid (.authorize order amount currency cardToken) op' := by
  cases op with
  | callAuthorize => cases reply <;> (cases h; exact .same ⟨rfl, rfl⟩ hb hs)
  | insertPayment approved ref =>
    simp only [authorizeStep] at h
    split at h
    · next hfree =>
      split at h
      · cases h
        exact ⟨idle_rollback, hb, fun other hne => undisturbed_rollback hne⟩
      · next hnew =>
        rw [not_or, not_not] at hnew
        -- the new row books nothing, and there was none
        have hmoved : Moved (db.writePayment pid order
            (authorizedRow amount currency cardToken approved ref)) pid order
            (authorizedRow amount currency cardToken approved ref) := by
          refine ⟨Rows.write_pending_self, ?_, ?_, ?_⟩
          · intro k v hk
            by_contra hne
            rw [Db.writePayment, Rows.write_pending_of_ne hne] at hk
            exact hs.1 k v hk
          · rw [show (db.writePayment pid order _).payments.committed order = none from hnew.1,
              show (db.writePayment pid order _).ledger.pending pid = [] from hs.2]
            cases approved <;> rfl
          · intro r hr
            rw [show (db.writePayment pid order _).payments.committed order = none from hnew.1]
              at hr
            cases hr
        cases h
        refine ⟨?_, hb, fun other hne => undisturbed_writePayment hfree hne⟩
        cases approved
        · exact .inr ⟨_, hmoved⟩
        · exact ⟨_, hmoved⟩
    · cases h
  | stageAuthorized ref => cases h; exact .same ⟨rfl, rfl⟩ hb (.inr hs)
  | _ => cases h

theorem lifecycleStep_kept {kind : Lifecycle} {order : OrderId} (hb : Books db)
    (hs : Standing db pid (.lifecycle kind order) op)
    (h : lifecycleStep reply pid db kind order op = some (db', op')) :
    Kept db db' pid (.lifecycle kind order) op' := by
  cases op with
  | readPayment =>
    have hread : db.payments.read pid order = db.payments.committed order := by
      cases hp : db.payments.pending order with
      | none => simp [Rows.read, hp]
      | some p =>
        obtain ⟨u, v⟩ := p
        have hu : u ≠ pid := by
          rintro rfl
          exact hs.1 order v hp
        simp [Rows.read, hp, hu]
    simp only [lifecycleStep] at h
    split at h
    · cases h; exact .same ⟨rfl, rfl⟩ hb hs
    · next row hrow =>
      split at h
      · cases h; exact .same ⟨rfl, rfl⟩ hb (.inl hs)
      · split at h
        · cases h; exact .same ⟨rfl, rfl⟩ hb hs
        · cases h
          exact .same ⟨rfl, rfl⟩ hb ⟨hs, row, hread.symm.trans hrow, .refl row⟩
  | callGateway row =>
    simp only [lifecycleStep] at h
    split at h
    · cases h; exact .same ⟨rfl, rfl⟩ hb hs.1
    · split at h
      · cases h; exact .same ⟨rfl, rfl⟩ hb hs.1
      · cases h; exact .same ⟨rfl, rfl⟩ hb hs
    · cases h; exact .same ⟨rfl, rfl⟩ hb hs.1
    · cases h; exact .same ⟨rfl, rfl⟩ hb hs
  | updatePayment row =>
    obtain ⟨hi, r, hr, ha⟩ := hs
    change db.payments.committed order = some r at hr
    simp only [lifecycleStep, hr] at h
    split at h
    · next hfree =>
      split at h
      · next hexp =>
        have honly : ∀ k v, (db.writePayment pid order
            { r with status := kind.target }).payments.pending k = some (pid, v) → k = order := by
          intro k v hk
          by_contra hne
          rw [Db.writePayment, Rows.write_pending_of_ne hne] at hk
          exact hi.1 k v hk
        have hothers : ∀ other, other ≠ pid → Undisturbed other db (db.writePayment pid order
            { r with status := kind.target }) :=
          fun other hne => undisturbed_writePayment hfree hne
        cases h
        refine ⟨?_, hb, hothers⟩
        split
        · next hl =>
          -- a void moves no money, so its row alone is booked
          refine .inr ⟨_, Rows.write_pending_self, honly, ?_, ?_⟩
          · change booked order { r with status := kind.target } =
              bookedAt order (db.payments.committed order) ++ db.ledger.pending pid
            rw [booked_move hexp, hr, hi.2]
            simp [bookedAt, movement, hl]
          · intro q hq
            cases hr.symm.trans hq
            exact .refl r
        · exact ⟨kind, rfl, ⟨r, hr, hexp, Rows.write_pending_self, ha⟩, honly, hi.2⟩
      · cases h; exact .same ⟨rfl, rfl⟩ hb hi
    · cases h
  | insertLedger row =>
    obtain ⟨op, hop, hhalf⟩ := hs
    obtain rfl : kind = op := (Call.lifecycle.inj hop).1
    obtain ⟨r, hr, hexp, hpend, ha⟩ := hhalf.before
    change db.payments.committed order = some r at hr
    simp only [lifecycleStep] at h
    split at h
    · cases h
    · next accounts hl =>
      split at h
      · cases h
        refine ⟨⟨_, hpend, hhalf.only, ?_, ?_⟩, hb,
          fun other hne => undisturbed_insertLedger hne⟩
        · change booked order { r with status := kind.target } =
            bookedAt order (db.payments.committed order) ++ _
          rw [booked_move hexp, hr, Db.insertLedger, Log.append_pending_self,
            hhalf.none_posted, List.nil_append, ← movement_congr ha.1 ha.2]
          simp [bookedAt, movement, hl, opKey]
        · intro q hq
          cases hr.symm.trans hq
          exact .refl r
      · cases h
        exact ⟨idle_rollback, hb, fun other hne => undisturbed_rollback hne⟩
  | stageEvent row => cases h; exact .same ⟨rfl, rfl⟩ hb (.inr hs)
  | _ => cases h

theorem bodyStep_kept (hb : Books db) (hs : Standing db pid call op)
    (h : bodyStep reply pid db call op = some (db', op')) : Kept db db' pid call op' := by
  cases call with
  | authorize order amount currency cardToken => exact authorizeStep_kept hb hs h
  | lifecycle kind order => exact lifecycleStep_kept hb hs h

/-- **One statement** keeps the books and the standing of its operation, and disturbs
nobody else. -/
theorem opStep_kept (hb : Books db) (hs : Standing db pid call op)
    (h : opStep cfg now reply pid db call op = some (db', op')) : Kept db db' pid call op' := by
  cases op with
  | insertKey => rw [opStep] at h; exact keyStep_kept hb hs h
  | selectKey => rw [opStep] at h; exact keyStep_kept hb hs h
  | takeOverKey expected => rw [opStep] at h; exact keyStep_kept hb hs h
  | readExisting => exact closeStep_kept hb hs h
  | releaseKey error => exact closeStep_kept hb hs h
  | completeKey outcome => exact closeStep_kept hb hs h
  | commit outcome => exact closeStep_kept hb hs h
  | _ => simp only [opStep] at h; exact bodyStep_kept hb hs h

end

/-! ### Whole runs -/

/-- The books are right, and every operation in progress has its standing. -/
structure Inv (s : System) : Prop where
  books : Books s.db
  standing : ∀ pid p, s.procs[pid]? = some p → Standing s.db pid p.call p.op
  unused : ∀ pid, s.procs.length ≤ pid → Idle s.db pid

/-- One operation has moved, and the others stand where they stood. -/
theorem Inv.moved {s : System} {db' : Db} {pid : ℕ} {p : Proc} {op' : Op} (hI : Inv s)
    (hp : s.procs[pid]? = some p) (hk : Kept s.db db' pid p.call op') :
    Inv ⟨db', s.procs.set pid { p with op := op' }⟩ := by
  have hlt : pid < s.procs.length := (List.getElem?_eq_some_iff.mp hp).1
  refine ⟨hk.books, ?_, ?_⟩
  · intro q pq hq
    rw [List.getElem?_set] at hq
    split at hq
    · next heq =>
      subst heq
      cases hq
      exact hk.standing
    · next hne => exact (hI.standing q pq hq).frame (hk.others q (Ne.symm hne))
  · intro q hq
    rw [List.length_set] at hq
    exact (hI.unused q hq).frame (hk.others q (by omega))

theorem Inv.step {cfg : Config} {s u : System} {e : Event} (hI : Inv s)
    (h : step cfg s e = some u) : Inv u := by
  cases e with
  | call call =>
    cases h
    refine ⟨hI.books, ?_, ?_⟩
    · intro pid p hp
      rw [List.getElem?_append] at hp
      split at hp
      · exact hI.standing pid p hp
      · next hge =>
        obtain ⟨-, rfl⟩ := List.getElem?_eq_some_iff.mp hp
        have hidle : Idle s.db pid := hI.unused pid (by omega)
        rw [List.getElem_singleton]
        exact hidle
    · intro pid hpid
      rw [List.length_append] at hpid
      exact hI.unused pid (by omega)
  | run pid now reply =>
    simp only [Payment.step] at h
    split at h
    · cases h
    · next p hp =>
      obtain ⟨⟨db', op'⟩, hstep, rfl⟩ := Option.map_eq_some_iff.mp h
      exact hI.moved hp (opStep_kept hI.books (hI.standing pid p hp) hstep)
  | crash pid =>
    simp only [Payment.step] at h
    split at h
    · cases h
    · next p hp =>
      cases h
      exact hI.moved hp ⟨idle_rollback, hI.books, fun other hne => undisturbed_rollback hne⟩
  | purge key now orphanTtl =>
    simp only [Payment.step] at h
    split at h
    · cases h
      have hm : SameMoney s.db (s.db.setKey key none) := ⟨rfl, rfl⟩
      exact ⟨hm.books hI.books, fun pid p hp => (hI.standing pid p hp).frame (hm.undisturbed pid),
        fun pid hpid => (hI.unused pid hpid).frame (hm.undisturbed pid)⟩
    · cases h

theorem inv_empty : Inv .empty := by
  refine ⟨fun order => rfl, ?_, ?_⟩
  · intro pid p hp
    simp [System.empty] at hp
  · exact fun pid _ => ⟨fun k v => by simp [System.empty, Db.empty, Rows.empty], rfl⟩

theorem books_of_run {cfg : Config} {is : List Event} {s : System}
    (h : Run (step cfg) Always .empty is s) : Books s.db :=
  (h.invariant inv_empty fun _ _ _ hI _ hstep => Inv.step hI hstep).books

/-! ### What the books say -/

/-- The entries under one op key. -/
def entriesOf (db : Db) (key : String) : List LedgerEntry :=
  db.ledger.committed.filter fun e => e.opKey = key

/-- The reversing entry, under the refund's key. -/
def mirror (e : LedgerEntry) : LedgerEntry :=
  ⟨e.orderId, opKey e.orderId .refund, e.account, e.creditCents, e.debitCents, e.currency⟩

/-- Two texts joined to a word without a colon by a colon are told apart. -/
theorem append_colon_inj {l l' n n' : List Char} (h : l ++ ':' :: n = l' ++ ':' :: n')
    (hn : ':' ∉ n) (hn' : ':' ∉ n') : l = l' ∧ n = n' := by
  rcases List.append_eq_append_iff.mp h with ⟨m, hl, hm⟩ | ⟨m, hl, hm⟩
  · cases m with
    | nil => simp at hl hm; exact ⟨hl.symm, hm⟩
    | cons c m =>
      -- the first text would end before a colon of the second word
      rw [List.cons_append] at hm
      have hmem : ':' ∈ n := by
        rw [(List.cons.inj hm).2]
        simp
      exact absurd hmem hn
  · cases m with
    | nil => simp at hl hm; exact ⟨hl, hm.symm⟩
    | cons c m =>
      rw [List.cons_append] at hm
      have hmem : ':' ∈ n' := by
        rw [(List.cons.inj hm).2]
        simp
      exact absurd hmem hn'

theorem opKey_inj {order order' : OrderId} {op op' : Lifecycle}
    (h : opKey order op = opKey order' op') : order = order' ∧ op = op' := by
  have hcolon : ∀ op : Lifecycle, ':' ∉ op.name.toList := by
    intro op
    cases op <;> decide
  have hlist : order.toList ++ ':' :: op.name.toList =
      order'.toList ++ ':' :: op'.name.toList := by
    have := congrArg String.toList h
    simpa [opKey] using this
  obtain ⟨ho, hn⟩ := append_colon_inj hlist (hcolon op) (hcolon op')
  refine ⟨String.toList_injective ho, ?_⟩
  cases op <;> cases op' <;> first | rfl | exact absurd hn (by decide)

/-- The entries of a payment under one of its keys. -/
theorem booked_filter (order : OrderId) (row : PaymentRow) (op : Lifecycle) :
    (booked order row).filter (fun e => e.opKey = opKey order op) =
      if row.status = .captured ∧ op = .capture ∨
        row.status = .refunded ∧ (op = .capture ∨ op = .refund) then movement op order row
      else [] := by
  have hkey : ∀ a b : Lifecycle, opKey order a = opKey order b ↔ a = b :=
    fun a b => ⟨fun h => (opKey_inj h).2, fun h => h ▸ rfl⟩
  cases hs : row.status <;> cases op <;>
    simp [booked, hs, movement, Lifecycle.ledger, ledgerPair, hkey]

theorem opKey_of_mem_movement {op : Lifecycle} {order : OrderId} {row : PaymentRow}
    {e : LedgerEntry} (h : e ∈ movement op order row) : e.opKey = opKey order op := by
  cases op <;> simp [movement, Lifecycle.ledger, ledgerPair] at h
  · rcases h with rfl | rfl <;> rfl
  · rcases h with rfl | rfl <;> rfl

theorem key_of_mem_booked {order : OrderId} {row : PaymentRow} {e : LedgerEntry}
    (h : e ∈ booked order row) :
    ∃ op, (op = .capture ∨ op = .refund) ∧ e.opKey = opKey order op := by
  unfold booked at h
  split at h
  · exact ⟨.capture, .inl rfl, opKey_of_mem_movement h⟩
  · rcases List.mem_append.mp h with h | h
    · exact ⟨.capture, .inl rfl, opKey_of_mem_movement h⟩
    · exact ⟨.refund, .inr rfl, opKey_of_mem_movement h⟩
  · cases h

/-- Every entry is booked by the payment of its order. -/
theorem Books.mem {db : Db} (hb : Books db) {e : LedgerEntry} (he : e ∈ db.ledger.committed) :
    ∃ row, db.payments.committed e.orderId = some row ∧ e ∈ booked e.orderId row := by
  have hmem : e ∈ bookedAt e.orderId (db.payments.committed e.orderId) := by
    rw [← hb e.orderId]
    exact List.mem_filter.mpr ⟨he, by simp⟩
  cases hrow : db.payments.committed e.orderId with
  | none => rw [hrow] at hmem; cases hmem
  | some row => exact ⟨row, rfl, by rwa [hrow] at hmem⟩

/-- The entries under an order's key are those of its payment. -/
theorem Books.filter_key {db : Db} (hb : Books db) (order : OrderId) (op : Lifecycle) :
    entriesOf db (opKey order op) =
      (bookedAt order (db.payments.committed order)).filter fun e => e.opKey = opKey order op := by
  rw [← hb order, List.filter_filter]
  refine List.filter_congr fun e he => ?_
  obtain ⟨row, -, hmem⟩ := hb.mem he
  obtain ⟨op', -, hkey⟩ := key_of_mem_booked hmem
  by_cases h : e.opKey = opKey order op
  · have ho : e.orderId = order := (opKey_inj (hkey.symm.trans h)).1
    simp [h, ho]
  · simp [h]

/-- The entries of a money movement, by the status of the payment. -/
theorem Books.of_row {db : Db} (hb : Books db) {order : OrderId} {row : PaymentRow}
    (hrow : db.payments.committed order = some row) (op : Lifecycle) :
    entriesOf db (opKey order op) =
      if row.status = .captured ∧ op = .capture ∨
        row.status = .refunded ∧ (op = .capture ∨ op = .refund) then movement op order row
      else [] := by
  rw [hb.filter_key, hrow]
  exact booked_filter order row op

theorem Books.of_absent {db : Db} (hb : Books db) {order : OrderId}
    (hrow : db.payments.committed order = none) (op : Lifecycle) :
    entriesOf db (opKey order op) = [] := by
  rw [hb.filter_key, hrow]
  rfl

def totalDebit (db : Db) (key : String) : ℤ := ((entriesOf db key).map (·.debitCents)).sum

def totalCredit (db : Db) (key : String) : ℤ := ((entriesOf db key).map (·.creditCents)).sum

/-- A ledger that agrees with the payments. -/
structure LedgerTruth (db : Db) : Prop where
  /-- Every entry belongs to the capture or to the refund of its order. -/
  keyed : ∀ e ∈ db.ledger.committed,
    e.opKey = opKey e.orderId .capture ∨ e.opKey = opKey e.orderId .refund
  /-- An operation has no entries or the one pair of its payment. -/
  pairs : ∀ order op, entriesOf db (opKey order op) = [] ∨
    ∃ row, db.payments.committed order = some row ∧
      entriesOf db (opKey order op) = movement op order row
  mirrored : ∀ order, entriesOf db (opKey order .refund) ≠ [] →
    entriesOf db (opKey order .capture) ≠ [] ∧
    entriesOf db (opKey order .refund) =
      ((entriesOf db (opKey order .capture)).map mirror).reverse
  balanced : ∀ e ∈ db.ledger.committed, ∃ row, db.payments.committed e.orderId = some row ∧
    totalDebit db e.opKey = row.amountCents ∧ totalCredit db e.opKey = row.amountCents
  captured : ∀ order, (∃ row, db.payments.committed order = some row ∧ row.status = .captured) ↔
    entriesOf db (opKey order .capture) ≠ [] ∧ entriesOf db (opKey order .refund) = []
  refunded : ∀ order, (∃ row, db.payments.committed order = some row ∧ row.status = .refunded) ↔
    entriesOf db (opKey order .capture) ≠ [] ∧ entriesOf db (opKey order .refund) ≠ []
  unmoved : ∀ order row, db.payments.committed order = some row →
    (row.status = .authorized ∨ row.status = .declined ∨ row.status = .voided ↔
      entriesOf db (opKey order .capture) = [] ∧ entriesOf db (opKey order .refund) = [])

/-- A pair of entries moves the payment's amount from one side to the other. -/
theorem movement_totals {op : Lifecycle} {order : OrderId} {row : PaymentRow} {e : LedgerEntry}
    (h : e ∈ movement op order row) :
    ((movement op order row).map (·.debitCents)).sum = row.amountCents ∧
      ((movement op order row).map (·.creditCents)).sum = row.amountCents := by
  cases op with
  | capture => simp [movement, Lifecycle.ledger, ledgerPair]
  | refund => simp [movement, Lifecycle.ledger, ledgerPair]
  | void => cases h

theorem movement_refund (order : OrderId) (row : PaymentRow) :
    movement .refund order row = ((movement .capture order row).map mirror).reverse := by
  simp [movement, Lifecycle.ledger, ledgerPair, mirror]

theorem movement_ne_nil {op : Lifecycle} (h : op = .capture ∨ op = .refund) (order : OrderId)
    (row : PaymentRow) : movement op order row ≠ [] := by
  rcases h with rfl | rfl <;> simp [movement, Lifecycle.ledger, ledgerPair]

/-- Which pairs there are, by the status of the payment. -/
theorem Books.status {db : Db} (hb : Books db) {order : OrderId} {row : PaymentRow}
    (hrow : db.payments.committed order = some row) :
    (entriesOf db (opKey order .capture) ≠ [] ↔ row.status = .captured ∨ row.status = .refunded) ∧
      (entriesOf db (opKey order .refund) ≠ [] ↔ row.status = .refunded) := by
  rw [hb.of_row hrow, hb.of_row hrow]
  have hc : movement .capture order row ≠ [] := movement_ne_nil (.inl rfl) order row
  have hr : movement .refund order row ≠ [] := movement_ne_nil (.inr rfl) order row
  cases row.status <;> simp [hc, hr]

theorem Books.truth {db : Db} (hb : Books db) : LedgerTruth db := by
  have hkeyed : ∀ e ∈ db.ledger.committed,
      e.opKey = opKey e.orderId .capture ∨ e.opKey = opKey e.orderId .refund := by
    intro e he
    obtain ⟨row, -, hmem⟩ := hb.mem he
    obtain ⟨op, rfl | rfl, hkey⟩ := key_of_mem_booked hmem
    · exact .inl hkey
    · exact .inr hkey
  have hpairs : ∀ order op, entriesOf db (opKey order op) = [] ∨
      ∃ row, db.payments.committed order = some row ∧
        entriesOf db (opKey order op) = movement op order row := by
    intro order op
    cases hrow : db.payments.committed order with
    | none => exact .inl (hb.of_absent hrow op)
    | some row =>
      rw [hb.of_row hrow]
      split
      · exact .inr ⟨row, rfl, rfl⟩
      · exact .inl rfl
  refine ⟨hkeyed, hpairs, ?_, ?_, ?_, ?_, ?_⟩
  · intro order h
    cases hrow : db.payments.committed order with
    | none => exact absurd (hb.of_absent hrow .refund) h
    | some row =>
      have hstatus : row.status = .refunded := (hb.status hrow).2.mp h
      refine ⟨(hb.status hrow).1.mpr (.inr hstatus), ?_⟩
      rw [hb.of_row hrow, hb.of_row hrow, if_pos (.inr ⟨hstatus, .inr rfl⟩),
        if_pos (.inr ⟨hstatus, .inl rfl⟩)]
      exact movement_refund order row
  · intro e he
    have hown : e ∈ entriesOf db e.opKey := List.mem_filter.mpr ⟨he, by simp⟩
    have hop : ∃ op, e.opKey = opKey e.orderId op := by
      rcases hkeyed e he with h | h
      · exact ⟨_, h⟩
      · exact ⟨_, h⟩
    obtain ⟨op, hop⟩ := hop
    rcases hpairs e.orderId op with h | ⟨row, hrow, h⟩
    · rw [hop, h] at hown
      cases hown
    · rw [hop, h] at hown
      refine ⟨row, hrow, ?_⟩
      rw [totalDebit, totalCredit, hop, h]
      exact movement_totals hown
  · intro order
    cases hrow : db.payments.committed order with
    | none => simp [hb.of_absent hrow]
    | some row =>
      obtain ⟨hc, hr⟩ := hb.status hrow
      have hr := hr.not
      rw [not_not] at hr
      rw [hc, hr]
      cases h : row.status <;> simp [h]
  · intro order
    cases hrow : db.payments.committed order with
    | none => simp [hb.of_absent hrow]
    | some row =>
      obtain ⟨hc, hr⟩ := hb.status hrow
      rw [hc, hr]
      cases h : row.status <;> simp [h]
  · intro order row hrow
    obtain ⟨hc, hr⟩ := hb.status hrow
    have hc := hc.not
    have hr := hr.not
    rw [not_not] at hc hr
    rw [hc, hr]
    cases row.status <;> simp

/-- **In every reachable state the ledger agrees with the payments**, whatever the
interleaving of the statements, the gateway's failures, the crashes, the
take-overs and the purges. -/
theorem ledger_truth {cfg : Config} {is : List Event} {s : System}
    (h : Run (step cfg) Always .empty is s) : LedgerTruth s.db :=
  (books_of_run h).truth

/-- An authorization and its capture, each on its own. -/
def captured : List Event :=
  [.call (.authorize "o" 700 "EUR" "tok"), .run 0 0 .done, .run 0 0 (.approved "ref"),
    .run 0 0 .done, .run 0 0 .done, .run 0 0 .done, .run 0 0 .done,
    .call (.lifecycle .capture "o"), .run 1 1 .done, .run 1 1 .done, .run 1 1 .done,
    .run 1 1 .done, .run 1 1 .done, .run 1 1 .done, .run 1 1 .done, .run 1 1 .done]

theorem ledger_truth_captured : ∃ s, Run (step ⟨id, {}⟩) Always .empty captured s ∧
    s.db.ledger.committed =
      [⟨"o", "o:capture", .customer, 700, 0, "EUR"⟩, ⟨"o", "o:capture", .platformCash, 0, 700, "EUR"⟩] ∧
    LedgerTruth s.db := by
  obtain ⟨s, hs, hp⟩ : ∃ s, Run (step ⟨id, {}⟩) Always .empty captured s ∧
      decide (s.db.ledger.committed =
        [⟨"o", "o:capture", .customer, 700, 0, "EUR"⟩,
          ⟨"o", "o:capture", .platformCash, 0, 700, "EUR"⟩]) = true :=
    exists_run_of_execOk (by decide)
  exact ⟨s, hs, of_decide_eq_true hp, ledger_truth hs⟩

end Payment
