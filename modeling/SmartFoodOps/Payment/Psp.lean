/-
The payment processor, and `PaymentService` against it.

`mock_psp` answers by idempotency key and replays what it answered; every attempt of
one gateway call carries the same key.  A call can be processed and its answer lost,
by a 5xx or a timeout, and the client gives up after some attempts: then the service
does not know what the processor has on record.

Left out: the dice and the magic tokens (the processor's decision is a label), the
bodies' bounds, and the error texts.
-/
import SmartFoodOps.Payment.Service

open Machine Transaction

namespace Payment

open Dispatch (OrderId)

/-! ### The processor -/

/-- The lifecycle of an authorization at the processor. -/
inductive AuthState
  | authorized
  | captured
  | voided
  | refunded
  deriving DecidableEq, Repr

/-- A recorded payload. -/
inductive PspAnswer
  | authorization (approved : Bool) (pspRef : String)
  | moved (pspRef : String) (target : AuthState)
  deriving DecidableEq, Repr

structure Psp where
  answered : String → Option PspAnswer
  refs : String → Option AuthState

namespace Psp

def empty : Psp := ⟨fun _ => none, fun _ => none⟩

def record (p : Psp) (key : String) (answer : PspAnswer) (ref : String) (st : Option AuthState) :
    Psp where
  answered := Function.update p.answered key (some answer)
  refs := match st with
    | some st => Function.update p.refs ref (some st)
    | none => p.refs

/-- What the client makes of a payload: `approved` is `outcome == "approved"`. -/
def reply : PspAnswer → GatewayReply
  | .authorization true ref => .approved ref
  | .authorization false ref => .declined ref
  | .moved ref _ => .declined ref

/-- `/psp/authorize`, deciding `approved` and drawing `fresh` for a new key. -/
def authorize (p : Psp) (key : String) (approved : Bool) (fresh : String) : Psp × GatewayReply :=
  match p.answered key with
  | some answer => (p, reply answer)
  | none =>
    (p.record key (.authorization approved fresh) fresh (if approved then some .authorized else none),
      if approved then .approved fresh else .declined fresh)

/-- `_lifecycle` of the processor. -/
def lifecycle (p : Psp) (key ref : String) (expected target : AuthState) : Psp × GatewayReply :=
  match p.answered key with
  | some _ => (p, .done)
  | none =>
    match p.refs ref with
    | none => (p, .unknownRef)
    | some st =>
      if st = expected then (p.record key (.moved ref target) ref (some target), .done)
      else (p, .stateConflict)

end Psp

def Lifecycle.pspExpected : Lifecycle → AuthState
  | capture => .authorized
  | void => .authorized
  | refund => .captured

def Lifecycle.pspTarget : Lifecycle → AuthState
  | capture => .captured
  | void => .voided
  | refund => .refunded

/-! ### The service and the processor -/

/-- What becomes of one attempt of a gateway call. -/
inductive Fate
  /-- The answer reaches the service. -/
  | delivered
  /-- The processor has processed the request; the client tries again. -/
  | lost
  /-- The client gives up. -/
  | givenUp
  deriving DecidableEq, Repr

/-- `voidedAbsent` is history: the orders whose payments row a void has found absent. -/
structure Gateway where
  payment : System
  psp : Psp
  voidedAbsent : List OrderId

def Gateway.empty : Gateway := ⟨.empty, .empty, []⟩

/-- The request of an operation that is at its gateway call. -/
def gatewayCall (psp : Psp) (p : Proc) (approved : Bool) (fresh : String) :
    Option (Psp × GatewayReply) :=
  match p.op, p.call with
  | .callAuthorize, .authorize _ _ _ _ => some (psp.authorize p.call.key approved fresh)
  | .callGateway row, .lifecycle op _ =>
    some (psp.lifecycle p.call.key (row.paymentIntentId.getD "") op.pspExpected op.pspTarget)
  | _, _ => none

inductive GatewayEvent
  /-- A statement of an operation. -/
  | statement (pid now : ℕ)
  /-- An attempt of its gateway call. -/
  | attempt (pid : ℕ) (fate : Fate) (approved : Bool) (fresh : String)
  | crash (pid : ℕ)
  | purge (key : String) (now orphanTtl : ℕ)
  deriving DecidableEq, Repr

/-- The order whose row a void is about to find absent. -/
def absentVoid (g : Gateway) (pid : ℕ) : Option OrderId :=
  match g.payment.procs[pid]? with
  | some ⟨.lifecycle .void order, .readPayment⟩ =>
    if g.payment.db.payments.read pid order = none then some order else none
  | _ => none

/-- One step of the service and the processor; a fresh reference is new to the
processor. -/
def gatewayStep (cfg : Config) (e : GatewayEvent) (g : Gateway) : Option Gateway :=
  match e with
  | .statement pid now =>
    match g.payment.procs[pid]? with
    | none => none
    | some p =>
      if (gatewayCall g.psp p true "").isSome then none
      else (step cfg g.payment (.run pid now .done)).map fun s =>
        { g with payment := s, voidedAbsent := g.voidedAbsent ++ (absentVoid g pid).toList }
  | .attempt pid fate approved fresh =>
    match g.payment.procs[pid]? with
    | none => none
    | some p =>
      match gatewayCall g.psp p approved fresh with
      | none => none
      | some (psp, reply) =>
        if g.psp.refs fresh ≠ none then none
        else match fate with
          | .delivered =>
            (step cfg g.payment (.run pid 0 reply)).map fun s => { g with payment := s, psp := psp }
          | .lost => some { g with psp := psp }
          | .givenUp =>
            (step cfg g.payment (.run pid 0 .unavailable)).map fun s => { g with payment := s }
  | .crash pid => (step cfg g.payment (.crash pid)).map fun s => { g with payment := s }
  | .purge key now orphanTtl =>
    (step cfg g.payment (.purge key now orphanTtl)).map fun s => { g with payment := s }

/-- A request arrives; its number is the number of requests before it. -/
def Gateway.request (g : Gateway) (call : Call) : Gateway :=
  { g with payment := { g.payment with procs := g.payment.procs ++ [{ call := call }] } }

/-- `{order_id}:auth`. -/
def authKey (order : OrderId) : String := order ++ ":" ++ "auth"

/-- A card hold that nobody will release: recorded for the order, and never voided. -/
def Stranded (psp : Psp) (order : OrderId) : Prop :=
  ∃ ref, psp.answered (authKey order) = some (.authorization true ref) ∧
    psp.refs ref = some .authorized

/-- The request has ended. -/
def Op.ended : Op → Bool
  | .answered _ | .raised _ | .crashed => true
  | _ => false

end Payment
