/-
`PaymentService`, statement by statement.

A money operation in progress is the statement or the gateway call that it makes
next (`Op`).  `opStep` makes it, against the tables of payment_db under READ
COMMITTED transactions; the gateway's reply is a label.  Short transactions of
one statement commit with it; the final transaction of an operation is cut at
each statement, and an operation can crash between any two.

Left out: the timestamps, the outbox ids, and the texts of the log lines.
-/
import SmartFoodOps.Lib.Machine
import SmartFoodOps.Lib.Transaction
import SmartFoodOps.Idempotency.Store
import SmartFoodOps.Dispatch.Stores

open Machine Transaction

namespace Payment

open Dispatch (OrderId)

/-! ### The tables -/

inductive PaymentStatus
  | authorized
  | declined
  | captured
  | voided
  | refunded
  deriving DecidableEq, Repr

structure PaymentRow where
  status : PaymentStatus
  amountCents : ℤ
  currency : String
  cardToken : String
  paymentIntentId : Option String
  deriving DecidableEq, Repr

inductive Account
  | customer
  | platformCash
  deriving DecidableEq, Repr

structure LedgerEntry where
  orderId : OrderId
  opKey : String
  account : Account
  debitCents : ℤ
  creditCents : ℤ
  currency : String
  deriving DecidableEq, Repr

/-- The events of payment's outbox, with what their payloads add to the order id. -/
inductive PaymentEvent
  | paymentAuthorized (order : OrderId) (amountCents : ℤ) (currency intent : String)
  | paymentCaptured (order : OrderId) (amountCents : ℤ) (currency : String)
  | refundProcessed (order : OrderId) (amountCents : ℤ) (currency : String)
  deriving DecidableEq, Repr

/-- A response body: a payment in full, a state move, or the decline envelope. -/
inductive Body
  | payment (order : OrderId) (status : PaymentStatus) (amountCents : ℤ) (intent : Option String)
  | moved (order : OrderId) (status : PaymentStatus)
  | declined
  deriving DecidableEq, Repr

structure PaymentOutcome where
  statusCode : ℕ
  body : Body
  replayed : Bool := false
  deriving DecidableEq, Repr

/-- payment_db, with the uncommitted writes of each process. -/
structure Db where
  payments : Rows OrderId PaymentRow ℕ
  keys : Rows String (Idempotency.Row Body) ℕ
  ledger : Log LedgerEntry ℕ
  outbox : Log PaymentEvent ℕ

namespace Db

def empty : Db := ⟨.empty, .empty, .empty, .empty⟩

/-- A statement on the idempotency row that commits at once. -/
def setKey (db : Db) (key : String) (row : Option (Idempotency.Row Body)) : Db :=
  { db with keys := db.keys.set key row }

/-- `complete`, on the caller's session; a key without a row is not touched. -/
def completeKey (db : Db) (pid : ℕ) (key : String) (outcome : PaymentOutcome) : Db :=
  match Idempotency.complete (db.keys.read pid key) outcome.statusCode outcome.body with
  | none => db
  | some row => { db with keys := db.keys.write pid key (some row) }

def writePayment (db : Db) (pid : ℕ) (order : OrderId) (row : PaymentRow) : Db :=
  { db with payments := db.payments.write pid order (some row) }

def insertLedger (db : Db) (pid : ℕ) (entries : List LedgerEntry) : Db :=
  { db with ledger := db.ledger.append pid entries }

def stageEvent (db : Db) (pid : ℕ) (events : List PaymentEvent) : Db :=
  { db with outbox := db.outbox.append pid events }

def commit (db : Db) (pid : ℕ) : Db :=
  ⟨db.payments.commit pid, db.keys.commit pid, db.ledger.commit pid, db.outbox.commit pid⟩

def rollback (db : Db) (pid : ℕ) : Db :=
  ⟨db.payments.rollback pid, db.keys.rollback pid, db.ledger.rollback pid,
    db.outbox.rollback pid⟩

end Db

/-! ### The operations -/

/-- The operations of `_lifecycle`. -/
inductive Lifecycle
  | capture
  | void
  | refund
  deriving DecidableEq, Repr

namespace Lifecycle

def name : Lifecycle → String
  | capture => "capture"
  | void => "void"
  | refund => "refund"

def expected : Lifecycle → PaymentStatus
  | capture => .authorized
  | void => .authorized
  | refund => .captured

def target : Lifecycle → PaymentStatus
  | capture => .captured
  | void => .voided
  | refund => .refunded

/-- The accounts debited and credited. -/
def ledger : Lifecycle → Option (Account × Account)
  | capture => some (.customer, .platformCash)
  | void => none
  | refund => some (.platformCash, .customer)

def event (op : Lifecycle) (order : OrderId) (row : PaymentRow) : Option PaymentEvent :=
  match op with
  | capture => some (.paymentCaptured order row.amountCents row.currency)
  | void => none
  | refund => some (.refundProcessed order row.amountCents row.currency)

end Lifecycle

inductive Call
  | authorize (order : OrderId) (amountCents : ℤ) (currency cardToken : String)
  | lifecycle (op : Lifecycle) (order : OrderId)
  deriving DecidableEq, Repr

namespace Call

def order : Call → OrderId
  | authorize order _ _ _ => order
  | lifecycle _ order => order

/-- `{order_id}:{op}`, the key of the idempotency row, of the PSP and of the ledger. -/
def key : Call → String
  | authorize order _ _ _ => order ++ ":" ++ "auth"
  | lifecycle op order => order ++ ":" ++ op.name

/-- The parts that `_op_hash` joins. -/
def hashed : Call → List String
  | authorize order amount currency _ => ["auth", order, toString amount, currency]
  | lifecycle op order => [op.name, order]

end Call

/-- What the service is set up with: the digest and the store's windows. -/
structure Config where
  sha256 : String → String
  ttl : Idempotency.Ttl := {}

def Config.opHash (cfg : Config) (call : Call) : String :=
  cfg.sha256 (":".intercalate call.hashed)

/-- What the gateway answers or raises. -/
inductive GatewayReply
  | approved (pspRef : String)
  | declined (pspRef : String)
  | done
  | unavailable
  | unknownRef
  | stateConflict
  deriving DecidableEq, Repr

/-- What an operation raises. -/
inductive MoneyError
  | inProgress
  | keyMismatch
  | stateConflict
  | pspUnavailable
  | unhandled
  deriving DecidableEq, Repr

/-- An operation between two statements. -/
inductive Op
  -- the idempotency store's reserve
  | insertKey
  | selectKey
  | takeOverKey (expected : Idempotency.KeyStatus)
  -- authorize
  | callAuthorize
  | insertPayment (approved : Bool) (pspRef : String)
  | stageAuthorized (pspRef : String)
  -- _lifecycle
  | readPayment
  | callGateway (row : PaymentRow)
  | updatePayment (row : PaymentRow)
  | insertLedger (row : PaymentRow)
  | stageEvent (row : PaymentRow)
  -- convergence on the row that is there
  | readExisting
  -- the ends
  | releaseKey (error : MoneyError)
  | completeKey (outcome : PaymentOutcome)
  | commit (outcome : PaymentOutcome)
  | answered (outcome : PaymentOutcome)
  | raised (error : MoneyError)
  | crashed
  deriving DecidableEq, Repr

/-- `_describe`. -/
def describe (order : OrderId) (row : PaymentRow) : PaymentOutcome :=
  if row.status = .declined then { statusCode := 402, body := .declined }
  else { statusCode := 200,
         body := .payment order row.status row.amountCents row.paymentIntentId }

/-- The balanced pair of one money movement. -/
def ledgerPair (order : OrderId) (opKey : String) (accounts : Account × Account) (amount : ℤ)
    (currency : String) : List LedgerEntry :=
  [⟨order, opKey, accounts.1, amount, 0, currency⟩, ⟨order, opKey, accounts.2, 0, amount, currency⟩]

/-- The outcome and the row of an authorization. -/
def authorized (order : OrderId) (amount : ℤ) (approved : Bool) (pspRef : String) :
    PaymentOutcome :=
  if approved then
    { statusCode := 200, body := .payment order .authorized amount (some pspRef) }
  else { statusCode := 402, body := .declined }

def authorizedRow (amount : ℤ) (currency cardToken : String) (approved : Bool) (pspRef : String) :
    PaymentRow :=
  { status := if approved then .authorized else .declined, amountCents := amount,
    currency := currency, cardToken := cardToken,
    paymentIntentId := if approved then some pspRef else none }

/-- What follows the reservation. -/
def reserved : Call → Op
  | .authorize .. => .callAuthorize
  | .lifecycle .. => .readPayment

/-- The answer of `_reserve` for a key that is not the caller's to execute. -/
def refusal : Idempotency.ReserveOutcome Body → Op
  | .replay (some status) (some body) =>
    .answered { statusCode := status, body := body, replayed := true }
  | .replay _ _ => .raised .unhandled
  | .inProgress => .raised .inProgress
  | .bodyMismatch => .raised .keyMismatch
  | .reserved => .raised .unhandled

/-! ### The statements -/

/-- The statements of `reserve`. -/
def keyStep (cfg : Config) (now : ℕ) (pid : ℕ) (db : Db) (call : Call) : Op → Option (Db × Op)
  | .insertKey =>
    match Idempotency.insertRow (db.keys.committed call.key) (cfg.opHash call) now with
    | some row =>
      if db.keys.free pid call.key then some (db.setKey call.key (some row), reserved call)
      else none
    | none => some (db, .selectKey)
  | .selectKey =>
    match Idempotency.judge cfg.ttl (db.keys.committed call.key) (cfg.opHash call) now with
    | .answer outcome => some (db, refusal outcome)
    | .takeOver expected => some (db, .takeOverKey expected)
  | .takeOverKey expected =>
    if db.keys.free pid call.key then
      match Idempotency.takeOver (db.keys.committed call.key) expected (cfg.opHash call) now with
      | (row, .reserved) => some (db.setKey call.key row, reserved call)
      | (_, outcome) => some (db, refusal outcome)
    else none
  | _ => none

/-- The statements and the gateway call of `authorize`. -/
def authorizeStep (reply : GatewayReply) (pid : ℕ) (db : Db) (order : OrderId) (amount : ℤ)
    (currency cardToken : String) : Op → Option (Db × Op)
  | .callAuthorize =>
    match reply with
    | .approved ref => some (db, .insertPayment true ref)
    | .declined ref => some (db, .insertPayment false ref)
    | .unavailable => some (db, .releaseKey .pspUnavailable)
    | _ => some (db, .raised .unhandled)
  | .insertPayment approved ref =>
    if db.payments.free pid order then
      -- the IntegrityError of the primary key or of the amount check
      if db.payments.committed order ≠ none ∨ amount < 1 then
        some (db.rollback pid, .readExisting)
      else
        some (db.writePayment pid order (authorizedRow amount currency cardToken approved ref),
          if approved then .stageAuthorized ref
          else .completeKey (authorized order amount approved ref))
    else none
  | .stageAuthorized ref =>
    some (db.stageEvent pid [.paymentAuthorized order amount currency ref],
      .completeKey (authorized order amount true ref))
  | _ => none

/-- The statements and the gateway call of `_lifecycle`. -/
def lifecycleStep (reply : GatewayReply) (pid : ℕ) (db : Db) (op : Lifecycle) (order : OrderId) :
    Op → Option (Db × Op)
  | .readPayment =>
    match db.payments.read pid order with
    | none => some (db, .releaseKey .stateConflict)
    | some row =>
      if row.status = op.target then some (db, .completeKey (describe order row))
      else if row.status ≠ op.expected then some (db, .releaseKey .stateConflict)
      else some (db, .callGateway row)
  | .callGateway row =>
    match reply with
    | .unavailable => some (db, .releaseKey .pspUnavailable)
    | .unknownRef =>
      if op ≠ .void then some (db, .releaseKey .stateConflict) else some (db, .updatePayment row)
    | .stateConflict => some (db, .releaseKey .stateConflict)
    | _ => some (db, .updatePayment row)
  | .updatePayment row =>
    if db.payments.free pid order then
      match db.payments.committed order with
      | none => some (db, .readExisting)
      | some current =>
        if current.status = op.expected then
          some (db.writePayment pid order { current with status := op.target },
            if op.ledger = none then
              .completeKey { statusCode := 200, body := .moved order op.target }
            else .insertLedger row)
        else some (db, .readExisting)
    else none
  | .insertLedger row =>
    match op.ledger with
    | none => none
    | some accounts =>
      -- ck_ledger_one_side
      if 0 < row.amountCents then
        some (db.insertLedger pid (ledgerPair order (order ++ ":" ++ op.name) accounts
          row.amountCents row.currency), .stageEvent row)
      else some (db.rollback pid, .raised .unhandled)
  | .stageEvent row =>
    some (db.stageEvent pid (op.event order row).toList,
      .completeKey { statusCode := 200, body := .moved order op.target })
  | _ => none

/-- The statements that end an operation. -/
def closeStep (pid : ℕ) (db : Db) (call : Call) : Op → Option (Db × Op)
  | .readExisting =>
    match db.payments.read pid call.order with
    | none => some (db.rollback pid, .raised .unhandled)
    | some row => some (db, .completeKey (describe call.order row))
  | .releaseKey error =>
    if db.keys.free pid call.key then
      some (db.setKey call.key (Idempotency.release (db.keys.committed call.key)),
        .raised error)
    else none
  | .completeKey outcome =>
    if db.keys.free pid call.key then
      some (db.completeKey pid call.key outcome, .commit outcome)
    else none
  | .commit outcome => some (db.commit pid, .answered outcome)
  | _ => none

/-- The statements between the reservation and the end. -/
def bodyStep (reply : GatewayReply) (pid : ℕ) (db : Db) (call : Call) (op : Op) :
    Option (Db × Op) :=
  match call with
  | .authorize order amount currency cardToken =>
    authorizeStep reply pid db order amount currency cardToken op
  | .lifecycle kind order => lifecycleStep reply pid db kind order op

/-- One statement, or one gateway call, of an operation. -/
def opStep (cfg : Config) (now : ℕ) (reply : GatewayReply) (pid : ℕ) (db : Db) (call : Call)
    (op : Op) : Option (Db × Op) :=
  match op with
  | .insertKey | .selectKey | .takeOverKey _ => keyStep cfg now pid db call op
  | .readExisting | .releaseKey _ | .completeKey _ | .commit _ => closeStep pid db call op
  | _ => bodyStep reply pid db call op

/-! ### The system -/

structure Proc where
  call : Call
  op : Op := .insertKey
  deriving DecidableEq, Repr

structure System where
  db : Db
  procs : List Proc

def System.empty : System := ⟨.empty, []⟩

inductive Event
  | call (call : Call)
  | run (pid : ℕ) (now : ℕ) (reply : GatewayReply)
  | crash (pid : ℕ)
  /-- `purge` reaches the key. -/
  | purge (key : String) (now orphanTtl : ℕ)
  deriving DecidableEq, Repr

def step (cfg : Config) (s : System) : Event → Option System
  | .call call => some { s with procs := s.procs ++ [{ call := call }] }
  | .run pid now reply =>
    match s.procs[pid]? with
    | none => none
    | some p =>
      (opStep cfg now reply pid s.db p.call p.op).map fun (db, op) =>
        { db := db, procs := s.procs.set pid { p with op := op } }
  | .crash pid =>
    match s.procs[pid]? with
    | none => none
    | some p =>
      some { db := s.db.rollback pid, procs := s.procs.set pid { p with op := .crashed } }
  | .purge key now orphanTtl =>
    if s.db.keys.pending key = none ∧
        (s.db.keys.committed key).any (Idempotency.purgeable cfg.ttl orphanTtl now) then
      some { s with db := s.db.setKey key none }
    else none

end Payment
