/-
Receipts: who owes one, who sends it, and how often.

A settled order files a receipt, in the transaction of its event.  Two tasks then render it and
send it; their messages are delivered at least once, and executions of them overlap.  The sender
looks at the log, asks for the address and hands the receipt to the mailer; what the mailer has
accepted is recorded by a transaction of its own.

* `Point`, `step` — the consumer, the executions of the tasks between two of their calls, the
  sweeper, and crashes;
* `Sure` — the mailer's answer to what it accepts is neither lost nor followed by a crash;
* `Alone` — and no execution passes the log check while another one that has passed it goes on;
* `Stage` — where an order's receipt is: open, accepted, or recorded;
* `receipts_sound` — in such runs the mailer accepts an order's receipt once, and its status says
  so;
* `receipts_sent_twice` — two executions that both pass the check send two receipts.
-/
import SmartFoodOps.Lib.Machine
import SmartFoodOps.Notification.Inbox

open Machine

namespace Notification.Receipts

/-! ### Tables -/

abbrev OrderId := String

inductive Status
  | pending
  | sent
  | parked
  deriving DecidableEq

/-- A row of `receipts`: what its order was settled with, and how far it has come. -/
structure ReceiptRow extends Receipt where
  createdAt : ℕ
  s3Key : Option String
  status : Status
  deriving DecidableEq

/-- What the mailer was asked to send, and has accepted. -/
structure Mail where
  orderId : OrderId
  recipient : String
  attachmentKey : String
  messageId : String
  deriving DecidableEq

structure Tables where
  receipts : OrderId → Option ReceiptRow
  /-- `delivery_log`, of the channel `email`: the provider's message id. -/
  deliveryLog : OrderId → Option String
  /-- What was rendered under a key. -/
  objects : String → Option Receipt
  /-- What the mailer has accepted. -/
  accepted : List Mail

/-- `receipt_key`. -/
def receiptKey (order : OrderId) : String := "receipts/" ++ order ++ ".pdf"

def Tables.empty : Tables := ⟨fun _ => none, fun _ => none, fun _ => none, []⟩

/-- An UPDATE of a receipt; there may be none. -/
def Tables.update (t : Tables) (order : OrderId) (change : ReceiptRow → ReceiptRow) : Tables :=
  { t with receipts := Function.update t.receipts order ((t.receipts order).map change) }

/-- `insert_receipt`, and whether the row is fresh. -/
def Tables.insertReceipt (t : Tables) (r : Receipt) (now : ℕ) : Tables × Bool :=
  match t.receipts r.orderId with
  | none =>
    ({ t with receipts := Function.update t.receipts r.orderId (some ⟨r, now, none, .pending⟩) },
      true)
  | some _ => (t, false)

/-- `_park`. -/
def Tables.park (t : Tables) (order : OrderId) : Tables :=
  t.update order fun row => { row with status := .parked }

/-- The transaction that records a send. -/
def Tables.record (t : Tables) (order : OrderId) (messageId : String) : Tables :=
  ({ t with
    deliveryLog := Function.update t.deliveryLog order
      (some ((t.deliveryLog order).getD messageId)) } : Tables).update order
    fun row => { row with status := .sent }

/-! ### Tasks -/

inductive Message
  | render (order : OrderId)
  | send (key : String) (order : OrderId)
  deriving DecidableEq

/-- A permanent failure. -/
inductive Refusal
  | unknownRecipient
  | rejected
  deriving DecidableEq

inductive Outcome
  | rendered (key : String) (order : OrderId)
  | sent (messageId : String)
  | duplicate (messageId : String)
  /-- `LookupError`: there is no such receipt. -/
  | missing
  | parked (why : Refusal)
  /-- Raised to be tried again. -/
  | retried
  | crashed
  deriving DecidableEq

/-- An execution of a task before one of its calls. -/
inductive Point
  -- receipts.render
  | load (order : OrderId)
  | put (order : OrderId) (data : Receipt)
  | stamp (order : OrderId) (key : String)
  -- receipts.send
  | check (key : String) (order : OrderId)
  | lookUp (key : String) (order : OrderId) (data : Receipt)
  | mail (key : String) (order : OrderId) (recipient : String)
  | park (order : OrderId) (why : Refusal)
  | record (order : OrderId) (messageId : String)
  | ended (outcome : Outcome)
  deriving DecidableEq

/-- What the store, identity or the mailer answers. -/
inductive Reply
  | ok
  | unavailable
  | address (email : String)
  | unknownRecipient
  | accepted (messageId : String)
  | rejected
  /-- The mailer accepts, and its answer does not arrive. -/
  | lost (messageId : String)
  deriving DecidableEq

def Message.begin : Message → Point
  | render order => .load order
  | send key order => .check key order

/-- One call of an execution; a reply that the call does not have is none. -/
def Point.step (t : Tables) (reply : Reply) : Point → Option (Tables × Point)
  | .load order =>
    match t.receipts order with
    | none => some (t, .ended .missing)
    | some row => some (t, .put order row.toReceipt)
  | .put order data =>
    match reply with
    | .ok => some ({ t with objects := Function.update t.objects (receiptKey order) (some data) },
        .stamp order (receiptKey order))
    | .unavailable => some (t, .ended .retried)
    | _ => none
  | .stamp order key =>
    some (t.update order fun row => { row with s3Key := some key }, .ended (.rendered key order))
  | .check key order =>
    match t.deliveryLog order with
    | some messageId => some (t, .ended (.duplicate messageId))
    | none =>
      match t.receipts order with
      | none => some (t, .ended .missing)
      | some row => some (t, .lookUp key order row.toReceipt)
  | .lookUp key order _ =>
    match reply with
    | .address email => some (t, .mail key order email)
    | .unknownRecipient => some (t, .park order .unknownRecipient)
    | .unavailable => some (t, .ended .retried)
    | _ => none
  | .mail key order recipient =>
    match reply with
    | .accepted messageId =>
      some ({ t with accepted := ⟨order, recipient, key, messageId⟩ :: t.accepted },
        .record order messageId)
    | .lost messageId =>
      some ({ t with accepted := ⟨order, recipient, key, messageId⟩ :: t.accepted },
        .ended .retried)
    | .rejected => some (t, .park order .rejected)
    | .unavailable => some (t, .ended .retried)
    | _ => none
  | .park order why => some (t.park order, .ended (.parked why))
  | .record order messageId => some (t.record order messageId, .ended (.sent messageId))
  | .ended _ => none

/-! ### The system -/

structure System where
  tables : Tables
  /-- The messages that were ever enqueued. -/
  queue : List Message
  /-- The executions that were ever started. -/
  execs : List Point
  /-- The settlements whose events were handled. -/
  handled : List Receipt

inductive Event
  /-- The event of a settlement is handled; the nudge gets to the broker, or it does not. -/
  | deliver (settled : Receipt) (now : ℕ) (nudged : Bool)
  /-- A worker takes a message, for the first time or again. -/
  | start (m : Message)
  | run (pid : ℕ) (reply : Reply)
  | crash (pid : ℕ)
  /-- The sweeper re-enqueues some of the receipts that are owed. -/
  | sweep (cutoff : ℕ) (owed : List OrderId)
  deriving DecidableEq

def System.empty : System := ⟨.empty, [], [], []⟩

/-- The message that follows on an execution's end. -/
def Point.next : Point → List Message
  | .ended (.rendered key order) => [.send key order]
  | _ => []

/-- Pending since before the cutoff. -/
def owed (t : Tables) (cutoff : ℕ) (order : OrderId) : Bool :=
  (t.receipts order).any fun row => row.status = .pending && row.createdAt < cutoff

def step (s : System) : Event → Option System
  | .deliver r now nudged =>
    some {
      tables := (s.tables.insertReceipt r now).1
      queue := if (s.tables.insertReceipt r now).2 && nudged then .render r.orderId :: s.queue
        else s.queue
      execs := s.execs
      handled := r :: s.handled }
  | .start m => if m ∈ s.queue then some { s with execs := s.execs ++ [m.begin] } else none
  | .run pid reply =>
    (s.execs[pid]?).bind fun x => (x.step s.tables reply).map fun q =>
      { s with tables := q.1, queue := q.2.next ++ s.queue, execs := s.execs.set pid q.2 }
  | .crash pid =>
    (s.execs[pid]?).map fun _ => { s with execs := s.execs.set pid (.ended .crashed) }
  | .sweep cutoff orders =>
    if orders.length ≤ 100 ∧ ∀ order ∈ orders, owed s.tables cutoff order = true then
      some { s with queue := orders.map .render ++ s.queue }
    else none

/-! ### Schedules -/

/-- The order that an execution is sending the receipt of: it has passed the log check. -/
def Point.sending : Point → Option OrderId
  | .lookUp _ order _ | .mail _ order _ | .park order _ | .record order _ => some order
  | _ => none

/-- The order whose log an execution checks next. -/
def Point.checking : Point → Option OrderId
  | .check _ order => some order
  | _ => none

/-- The mailer accepts, and the execution does not come to know it. -/
def Reply.loses : Reply → Bool
  | .lost _ => true
  | _ => false

/-- The mailer has accepted what the execution is to record. -/
def Point.recording : Point → Bool
  | .record _ _ => true
  | _ => false

/-- What the mailer accepts is recorded: its answer arrives, and the execution goes on. -/
def Sure (s : System) : Event → Prop
  | .run _ reply => reply.loses = false
  | .crash pid => ∀ x ∈ s.execs[pid]?, x.recording = false
  | .deliver .. | .start _ | .sweep .. => True

/-- An execution passes the log check when no other one is sending the receipt. -/
def Clear (s : System) : Event → Prop
  | .run pid _ => ∀ order ∈ (s.execs[pid]?).bind Point.checking, ∀ x ∈ s.execs,
      x.sending ≠ some order
  | .deliver .. | .start _ | .crash _ | .sweep .. => True

def Alone (s : System) (e : Event) : Prop := Sure s e ∧ Clear s e

instance (s : System) : (e : Event) → Decidable (Sure s e)
  | .run _ reply => (inferInstance : Decidable (reply.loses = false))
  | .crash pid => (inferInstance : Decidable (∀ x ∈ s.execs[pid]?, x.recording = false))
  | .deliver .. | .start _ | .sweep .. => .isTrue trivial

instance (s : System) : (e : Event) → Decidable (Clear s e)
  | .run pid _ => (inferInstance : Decidable (∀ order ∈ (s.execs[pid]?).bind Point.checking,
      ∀ x ∈ s.execs, x.sending ≠ some order))
  | .deliver .. | .start _ | .crash _ | .sweep .. => .isTrue trivial

instance (s : System) (e : Event) : Decidable (Alone s e) := inferInstanceAs (Decidable (_ ∧ _))

/-! ### Where a receipt is -/

/-- The ids of the messages that the mailer has accepted for the order. -/
def Tables.messages (t : Tables) (order : OrderId) : List String :=
  (t.accepted.filter fun m => m.orderId = order).map fun m => m.messageId

def Tables.statusOf (t : Tables) (order : OrderId) : Option Status :=
  (t.receipts order).map fun row => row.status

/-- At most one execution is sending the order's receipt. -/
def Single (execs : List Point) (order : OrderId) : Prop :=
  ∀ (i j : ℕ) (x y : Point), execs[i]? = some x → execs[j]? = some y → x.sending = some order →
    y.sending = some order → i = j

inductive Stage (t : Tables) (execs : List Point) (order : OrderId) : Prop
  | unsent (hlog : t.deliveryLog order = none) (hmail : t.messages order = [])
      (hrow : t.statusOf order ≠ some .sent) (hrec : ∀ id, .record order id ∉ execs)
  | accepted {id : String} (hlog : t.deliveryLog order = none) (hmail : t.messages order = [id])
      (hrow : t.statusOf order ≠ some .sent) (hrec : .record order id ∈ execs)
  | recorded {id : String} (hlog : t.deliveryLog order = some id)
      (hmail : t.messages order = [id]) (hrow : t.statusOf order = some .sent)
      (hnone : ∀ x ∈ execs, x.sending ≠ some order)

section

variable {t t' : Tables} {execs execs' : List Point} {order o : OrderId} {pid : ℕ}
  {x y : Point} {reply : Reply}

theorem mem_set_of_ne {z : Point} (hx : execs[pid]? = some x) (hz : z ∈ execs) (hne : z ≠ x) :
    z ∈ execs.set pid y := by
  obtain ⟨i, hi⟩ := List.mem_iff_getElem?.mp hz
  by_cases hpid : pid = i
  · subst hpid
    exact absurd (Option.some.inj (hi.symm.trans hx)) hne
  · exact List.mem_of_getElem? ((List.getElem?_set_ne hpid).trans hi)

theorem Single.set (h : Single execs order) (hx : execs[pid]? = some x)
    (hy : y.sending = some order → x.sending = some order ∨ ∀ z ∈ execs, z.sending ≠ some order) :
    Single (execs.set pid y) order := by
  have hlt := (List.getElem?_eq_some_iff.mp hx).1
  have hold : ∀ {i z}, i ≠ pid → (execs.set pid y)[i]? = some z → execs[i]? = some z :=
    fun hi hz => (List.getElem?_set_ne (Ne.symm hi)).symm.trans hz
  have hnew : ∀ {z}, (execs.set pid y)[pid]? = some z → z = y := fun hz =>
    (Option.some.inj ((List.getElem?_set_self hlt).symm.trans hz)).symm
  -- somebody else sends only if the execution was not about to
  have hother : ∀ {i z}, i ≠ pid → (execs.set pid y)[i]? = some z → z.sending = some order →
      y.sending = some order → False := by
    intro i z hi hz hs hys
    rcases hy hys with hxs | hno
    · exact hi (h i pid z x (hold hi hz) hx hs hxs)
    · exact hno z (List.mem_of_getElem? (hold hi hz)) hs
  intro i j z w hz hw hzs hws
  by_cases hi : i = pid <;> by_cases hj : j = pid
  · rw [hi, hj]
  · subst hi
    rw [hnew hz] at hzs
    exact (hother hj hw hws hzs).elim
  · subst hj
    rw [hnew hw] at hws
    exact (hother hi hz hzs hws).elim
  · exact h i j z w (hold hi hz) (hold hj hw) hzs hws

theorem Single.append (h : Single execs order) (hy : y.sending = none) :
    Single (execs ++ [y]) order := by
  have hold : ∀ {i : ℕ} {z : Point}, (execs ++ [y])[i]? = some z → z.sending = some order →
      execs[i]? = some z := by
    intro i z hz hs
    rw [List.getElem?_append] at hz
    split at hz
    · exact hz
    · cases List.mem_singleton.mp (List.mem_of_getElem? hz)
      cases hy.symm.trans hs
  intro i j z w hz hw hzs hws
  exact h i j z w (hold hz hzs) (hold hw hws) hzs hws

/-- What a stage depends on. -/
theorem Stage.keep (h : Stage t execs order) (hlog : t'.deliveryLog order = t.deliveryLog order)
    (hmail : t'.messages order = t.messages order)
    (hrow : t'.statusOf order = t.statusOf order ∨
      t.statusOf order ≠ some .sent ∧ t'.statusOf order ≠ some .sent)
    (hrec : ∀ id, .record order id ∈ execs' ↔ .record order id ∈ execs)
    (hsend : t.deliveryLog order ≠ none → ∀ x ∈ execs', x.sending = some order →
      ∃ x ∈ execs, x.sending = some order) : Stage t' execs' order := by
  have hnot : t.statusOf order ≠ some .sent → t'.statusOf order ≠ some .sent := fun hs =>
    hrow.elim (fun he => he ▸ hs) fun hr => hr.2
  cases h with
  | unsent hl hm hr hno =>
    exact .unsent (hlog.trans hl) (hmail.trans hm) (hnot hr) fun id hid => hno id ((hrec id).mp hid)
  | accepted hl hm hr hid =>
    exact .accepted (hlog.trans hl) (hmail.trans hm) (hnot hr) ((hrec _).mpr hid)
  | recorded hl hm hr hno =>
    refine .recorded (hlog.trans hl) (hmail.trans hm) ?_ fun x hx hs => ?_
    · rcases hrow with he | ⟨hne, -⟩
      · rw [he, hr]
      · exact absurd hr hne
    · obtain ⟨z, hz, hzs⟩ := hsend (by rw [hl]; simp) x hx hs
      exact hno z hz hzs

/-! ### What one call does -/

/-- A call that neither sends nor writes a status. -/
structure Calm (t t' : Tables) (x y : Point) : Prop where
  log : t'.deliveryLog = t.deliveryLog
  mails : t'.accepted = t.accepted
  status (order : OrderId) : t'.statusOf order = t.statusOf order
  idle : x.recording = false
  /-- The execution does not come to record; when it comes to send, it has checked the log. -/
  goes : y.recording = false ∧ ∀ order, y.sending = some order → x.sending = some order ∨
    x.checking = some order ∧ t.deliveryLog order = none ∧ t.receipts order ≠ none

theorem statusOf_update {change : ReceiptRow → ReceiptRow} : (t.update o change).statusOf order =
    if order = o then (t.receipts o).map fun row => (change row).status
    else t.statusOf order := by
  unfold Tables.statusOf Tables.update
  by_cases h : order = o
  · subst h
    rw [if_pos rfl]
    show (Function.update t.receipts order _ order).map _ = _
    rw [Function.update_self, Option.map_map]
    rfl
  · rw [if_neg h]
    exact congrArg _ (Function.update_of_ne h _ _)

inductive Does (t : Tables) (reply : Reply) : Point → Tables → Point → Prop
  | calm {x y : Point} {t' : Tables} (h : Calm t t' x y) : Does t reply x t' y
  | mail {key recipient id : String} {order : OrderId} :
      Does t reply (.mail key order recipient)
        { t with accepted := ⟨order, recipient, key, id⟩ :: t.accepted } (.record order id)
  | lose {x y : Point} {t' : Tables} (h : reply.loses = true) : Does t reply x t' y
  | park {order : OrderId} {why : Refusal} :
      Does t reply (.park order why) (t.park order) (.ended (.parked why))
  | record {order : OrderId} {id : String} :
      Does t reply (.record order id) (t.record order id) (.ended (.sent id))

/-- A call that leaves the tables alone, and after which the execution is not sending unless it
was. -/
theorem calm_same (hx : x.recording = false) (hy : y.recording = false)
    (hs : ∀ order, y.sending = some order → x.sending = some order) : Calm t t x y :=
  ⟨rfl, rfl, fun _ => rfl, hx, hy, fun order h => .inl (hs order h)⟩

/-- **One call** of an execution. -/
theorem point_step_cases (h : x.step t reply = some (t', y)) : Does t reply x t' y := by
  cases x with
  | load order =>
    simp only [Point.step] at h
    split at h <;> cases h <;> exact .calm (calm_same rfl rfl fun _ hs => by cases hs)
  | put order data =>
    cases reply with
    | ok =>
      cases h
      exact .calm ⟨rfl, rfl, fun _ => rfl, rfl, rfl, fun _ hs => by cases hs⟩
    | unavailable => cases h; exact .calm (calm_same rfl rfl fun _ hs => by cases hs)
    | address | unknownRecipient | accepted | rejected | lost => cases h
  | stamp order key =>
    cases h
    refine .calm ⟨rfl, rfl, fun o => ?_, rfl, rfl, fun _ hs => by cases hs⟩
    rw [statusOf_update]
    split
    · next ho => rw [ho]; rfl
    · rfl
  | check key order =>
    simp only [Point.step] at h
    split at h
    · cases h
      exact .calm (calm_same rfl rfl fun _ hs => by cases hs)
    · next hlog =>
      split at h
      · cases h
        exact .calm (calm_same rfl rfl fun _ hs => by cases hs)
      · next row hrow =>
        cases h
        refine .calm ⟨rfl, rfl, fun _ => rfl, rfl, rfl, fun o hs => .inr ?_⟩
        obtain rfl : order = o := Option.some.inj hs
        exact ⟨rfl, hlog, by rw [hrow]; simp⟩
  | lookUp key order data =>
    cases reply with
    | address | unknownRecipient => cases h; exact .calm (calm_same rfl rfl fun _ hs => hs)
    | unavailable => cases h; exact .calm (calm_same rfl rfl fun _ hs => by cases hs)
    | ok | accepted | rejected | lost => cases h
  | mail key order recipient =>
    cases reply with
    | accepted id => cases h; exact .mail
    | lost id => exact .lose rfl
    | rejected => cases h; exact .calm (calm_same rfl rfl fun _ hs => hs)
    | unavailable => cases h; exact .calm (calm_same rfl rfl fun _ hs => by cases hs)
    | ok | address | unknownRecipient => cases h
  | park order why => cases h; exact .park
  | record order id => cases h; exact .record
  | ended outcome => cases h

/-! ### The invariant -/

structure Inv (s : System) : Prop where
  single (order : OrderId) : Single s.execs order
  loaded {x : Point} {order : OrderId} :
    x ∈ s.execs → x.sending = some order → s.tables.receipts order ≠ none
  stage (order : OrderId) : Stage s.tables s.execs order
  handled {r : Receipt} : r ∈ s.handled → s.tables.receipts r.orderId ≠ none

theorem inv_empty : Inv .empty where
  single order := by
    intro i j x y hx
    cases hx
  loaded h := by cases h
  stage order := by
    refine .unsent rfl rfl ?_ fun id h => by cases h
    show (none : Option ReceiptRow).map _ ≠ _
    simp
  handled h := by cases h

theorem receipts_of_status (h : t'.statusOf order = t.statusOf order)
    (hr : t.receipts order ≠ none) : t'.receipts order ≠ none := by
  intro hn
  have hmap : (t.receipts order).map (fun row => row.status) = none := by
    rw [← Tables.statusOf, ← h, Tables.statusOf, hn]
    rfl
  exact hr (Option.map_eq_none_iff.mp hmap)

/-- The execution that is sending is in the stage that its point says. -/
theorem Stage.unsent_of (h : Stage t execs order) (hsingle : Single execs order)
    (hx : x ∈ execs) (hs : x.sending = some order) (hr : x.recording = false) :
    t.deliveryLog order = none ∧ t.messages order = [] ∧ t.statusOf order ≠ some .sent ∧
      ∀ id, .record order id ∉ execs := by
  cases h with
  | unsent hl hm hrow hrec => exact ⟨hl, hm, hrow, hrec⟩
  | accepted hl hm hrow hrec =>
    obtain ⟨i, hi⟩ := List.mem_iff_getElem?.mp hx
    obtain ⟨j, hj⟩ := List.mem_iff_getElem?.mp hrec
    obtain rfl := hsingle i j _ _ hi hj hs rfl
    cases hi.symm.trans hj
    cases hr
  | recorded hl hm hrow hnone => exact absurd hs (hnone x hx)

theorem Stage.accepted_of {id : String} (h : Stage t execs order) (hsingle : Single execs order)
    (hx : .record order id ∈ execs) :
    t.deliveryLog order = none ∧ t.messages order = [id] := by
  cases h with
  | unsent hl hm hrow hrec => exact absurd hx (hrec id)
  | accepted hl hm hrow hrec =>
    obtain ⟨i, hi⟩ := List.mem_iff_getElem?.mp hx
    obtain ⟨j, hj⟩ := List.mem_iff_getElem?.mp hrec
    obtain rfl := hsingle i j _ _ hi hj rfl rfl
    cases hi.symm.trans hj
    exact ⟨hl, hm⟩
  | recorded hl hm hrow hnone => exact absurd rfl (hnone _ hx)

theorem messages_cons {m : Mail} : ({ t with accepted := m :: t.accepted } : Tables).messages order =
    if m.orderId = order then m.messageId :: t.messages order else t.messages order := by
  unfold Tables.messages
  by_cases h : m.orderId = order <;> simp [h]

theorem receipts_update {change : ReceiptRow → ReceiptRow} (h : t.receipts order ≠ none) :
    (t.update o change).receipts order ≠ none := by
  unfold Tables.update
  by_cases ho : order = o
  · subst ho
    show Function.update t.receipts order _ order ≠ none
    rw [Function.update_self]
    exact fun hn => h (Option.map_eq_none_iff.mp hn)
  · show Function.update t.receipts o _ order ≠ none
    rwa [Function.update_of_ne ho]

/-- A point that is not the order's matters not to its stage. -/
theorem record_mem_set (hx : execs[pid]? = some x) (hxr : ∀ id, x ≠ .record order id)
    (hyr : ∀ id, y ≠ .record order id) (id : String) :
    .record order id ∈ execs.set pid y ↔ .record order id ∈ execs := by
  constructor
  · intro h
    exact (List.mem_or_eq_of_mem_set h).resolve_right fun he => hyr id he.symm
  · intro h
    exact mem_set_of_ne hx h fun he => hxr id he.symm

variable {s : System} {q : List Message}

/-- **One call** of an execution keeps the invariant. -/
theorem Inv.call (hi : Inv s) (hx : s.execs[pid]? = some x) (hdo : Does s.tables reply x t' y)
    (hlose : reply.loses = false)
    (hclear : ∀ order ∈ x.checking, y.sending = some order → ∀ z ∈ s.execs,
      z.sending ≠ some order) :
    Inv ⟨t', q, s.execs.set pid y, s.handled⟩ := by
  have hmem := List.mem_of_getElem? hx
  -- an execution that goes on for an order, or ends, sends for no other
  have hframe : ∀ {o order}, x.sending = some o → (y.sending = none ∨ y.sending = some o) →
      order ≠ o → t'.deliveryLog order = s.tables.deliveryLog order →
      t'.messages order = s.tables.messages order → t'.statusOf order = s.tables.statusOf order →
      Stage t' (s.execs.set pid y) order := by
    intro o order hxs hys hne hlog hmail hrow
    have hxr : ∀ id, x ≠ .record order id := by
      rintro id rfl
      exact hne (Option.some.inj hxs)
    have hyn : y.sending ≠ some order := by
      intro hs
      rcases hys with hys | hys
      · cases hys.symm.trans hs
      · exact hne (Option.some.inj (hs.symm.trans hys))
    have hyr : ∀ id, y ≠ .record order id := by
      rintro id rfl
      exact hyn rfl
    refine (hi.stage order).keep hlog hmail (.inl hrow) (record_mem_set hx hxr hyr)
      fun _ z hz hs => ?_
    rcases List.mem_or_eq_of_mem_set hz with hz | rfl
    · exact ⟨z, hz, hs⟩
    · exact absurd hs hyn
  have hsingle : (∀ order, y.sending = some order → x.sending = some order) →
      ∀ order, Single (s.execs.set pid y) order := fun hs order =>
    (hi.single order).set hx fun hy => .inl (hs order hy)
  have hloaded : (∀ order, y.sending = some order → x.sending = some order) →
      (∀ order, s.tables.receipts order ≠ none → t'.receipts order ≠ none) →
      ∀ {z order}, z ∈ s.execs.set pid y → z.sending = some order → t'.receipts order ≠ none := by
    intro hys hr z order hz hs
    rcases List.mem_or_eq_of_mem_set hz with hz | rfl
    · exact hr order (hi.loaded hz hs)
    · exact hr order (hi.loaded hmem (hys order hs))
  cases hdo with
  | lose h => cases hlose.symm.trans h
  | calm h =>
    have hrow : ∀ order, s.tables.receipts order ≠ none → t'.receipts order ≠ none := fun order =>
      receipts_of_status (h.status order)
    refine ⟨fun order => ?_, fun {z order} hz hs => ?_, fun order => ?_, fun hr =>
      hrow _ (hi.handled hr)⟩
    · exact (hi.single order).set hx fun hy =>
        (h.goes.2 order hy).imp_right fun hc => hclear order hc.1 hy
    · rcases List.mem_or_eq_of_mem_set hz with hz | rfl
      · exact hrow order (hi.loaded hz hs)
      · rcases h.goes.2 order hs with hxs | hc
        · exact hrow order (hi.loaded hmem hxs)
        · exact hrow order hc.2.2
    · have hxr : ∀ id, x ≠ .record order id := by
        rintro id rfl
        cases h.idle
      have hyr : ∀ id, y ≠ .record order id := by
        rintro id rfl
        cases h.goes.1
      refine (hi.stage order).keep (congrFun h.log order) ?_ (.inl (h.status order))
        (record_mem_set hx hxr hyr) fun hlog z hz hs => ?_
      · unfold Tables.messages
        rw [h.mails]
      · rcases List.mem_or_eq_of_mem_set hz with hz | rfl
        · exact ⟨z, hz, hs⟩
        · exact ⟨x, hmem, (h.goes.2 order hs).resolve_right fun hc => hlog hc.2.1⟩
  | @mail key recipient id o =>
    have hys : ∀ order, (Point.record o id).sending = some order →
        (Point.mail key o recipient).sending = some order := fun _ hs => hs
    refine ⟨hsingle hys, hloaded hys fun _ hr => hr, fun order => ?_, hi.handled⟩
    by_cases ho : order = o
    · subst ho
      obtain ⟨hlog, hmail, hrow, -⟩ := (hi.stage order).unsent_of (hi.single order) hmem rfl rfl
      have hone : ({ s.tables with accepted := ⟨order, recipient, key, id⟩ :: s.tables.accepted } :
          Tables).messages order = [id] := by rw [messages_cons, if_pos rfl, hmail]
      exact .accepted hlog hone hrow (List.mem_set (List.getElem?_eq_some_iff.mp hx).1 _)
    · refine hframe rfl (.inr rfl) ho rfl ?_ rfl
      rw [messages_cons, if_neg (Ne.symm ho)]
  | @park o why =>
    have hys : ∀ order, (Point.ended (.parked why)).sending = some order →
        (Point.park o why).sending = some order := fun _ hs => by cases hs
    refine ⟨hsingle hys, hloaded hys fun _ hr => receipts_update hr, fun order => ?_,
      fun hr => receipts_update (hi.handled hr)⟩
    by_cases ho : order = o
    · subst ho
      obtain ⟨hlog, hmail, -, hrec⟩ := (hi.stage order).unsent_of (hi.single order) hmem rfl rfl
      refine .unsent hlog hmail ?_ fun id h => ?_
      · rw [Tables.park, statusOf_update, if_pos rfl]
        cases s.tables.receipts order <;> simp
      · exact hrec id ((List.mem_or_eq_of_mem_set h).resolve_right fun he => by cases he)
    · refine hframe rfl (.inl rfl) ho rfl rfl ?_
      rw [Tables.park, statusOf_update, if_neg ho]
  | @record o id =>
    have hys : ∀ order, (Point.ended (.sent id)).sending = some order →
        (Point.record o id).sending = some order := fun _ hs => by cases hs
    refine ⟨hsingle hys, hloaded hys fun _ hr => receipts_update hr, fun order => ?_,
      fun hr => receipts_update (hi.handled hr)⟩
    by_cases ho : order = o
    · subst ho
      obtain ⟨hlog, hmail⟩ := (hi.stage order).accepted_of (hi.single order) hmem
      have hrecorded : (s.tables.record order id).deliveryLog order = some id := by
        show Function.update s.tables.deliveryLog order _ order = _
        rw [Function.update_self, hlog]
        rfl
      refine .recorded hrecorded hmail ?_ fun z hz hs => ?_
      · rw [Tables.record, statusOf_update, if_pos rfl]
        obtain ⟨row, hrow⟩ := Option.ne_none_iff_exists'.mp (hi.loaded hmem rfl)
        show (s.tables.receipts order).map _ = _
        rw [hrow]
        rfl
      · obtain ⟨i, hi'⟩ := List.mem_iff_getElem?.mp hz
        by_cases hpid : pid = i
        · subst hpid
          have hlt := (List.getElem?_eq_some_iff.mp hx).1
          cases (List.getElem?_set_self hlt).symm.trans hi'
          cases hs
        · exact hpid (hi.single order _ _ _ _ hx ((List.getElem?_set_ne hpid).symm.trans hi') rfl hs)
    · refine hframe rfl (.inl rfl) ho ?_ rfl ?_
      · exact Function.update_of_ne ho _ _
      · rw [Tables.record, statusOf_update, if_neg ho]
        rfl

theorem insertReceipt_cases (t : Tables) (r : Receipt) (now : ℕ) :
    t.receipts r.orderId = none ∧ (t.insertReceipt r now).1 =
        { t with receipts := Function.update t.receipts r.orderId (some ⟨r, now, none, .pending⟩) } ∨
      t.receipts r.orderId ≠ none ∧ (t.insertReceipt r now).1 = t := by
  unfold Tables.insertReceipt
  cases h : t.receipts r.orderId with
  | none => exact .inl ⟨rfl, rfl⟩
  | some row => exact .inr ⟨by simp, rfl⟩

/-- What handling an event does to the status of a receipt. -/
theorem statusOf_insertReceipt (t : Tables) (r : Receipt) (now : ℕ) (order : OrderId) :
    (t.insertReceipt r now).1.statusOf order = t.statusOf order ∨
      t.receipts order = none ∧ (t.insertReceipt r now).1.statusOf order = some .pending := by
  rcases insertReceipt_cases t r now with ⟨hnone, he⟩ | ⟨-, he⟩
  · rw [he]
    by_cases ho : order = r.orderId
    · subst ho
      refine .inr ⟨hnone, ?_⟩
      show (Function.update t.receipts r.orderId _ r.orderId).map _ = _
      rw [Function.update_self]
      rfl
    · exact .inl (congrArg _ (Function.update_of_ne ho _ _))
  · rw [he]
    exact .inl rfl

theorem receipts_insertReceipt (t : Tables) (r : Receipt) (now : ℕ) {order : OrderId}
    (h : t.receipts order ≠ none ∨ order = r.orderId) :
    (t.insertReceipt r now).1.receipts order ≠ none := by
  rcases insertReceipt_cases t r now with ⟨hnone, he⟩ | ⟨hsome, he⟩
  · rw [he]
    by_cases ho : order = r.orderId
    · subst ho
      show Function.update t.receipts r.orderId _ r.orderId ≠ none
      rw [Function.update_self]
      simp
    · show Function.update t.receipts r.orderId _ order ≠ none
      rw [Function.update_of_ne ho]
      exact h.resolve_right ho
  · rw [he]
    rcases h with h | rfl
    · exact h
    · exact hsome

variable {u : System} {e : Event}

/-- **One step** keeps the invariant. -/
theorem Inv.step (hi : Inv s) (hok : Alone s e) (h : Receipts.step s e = some u) : Inv u := by
  cases e with
  | deliver r now nudged =>
    cases h
    have hlog : (s.tables.insertReceipt r now).1.deliveryLog = s.tables.deliveryLog := by
      rcases insertReceipt_cases s.tables r now with ⟨-, he⟩ | ⟨-, he⟩ <;> rw [he]
    have hmail : (s.tables.insertReceipt r now).1.accepted = s.tables.accepted := by
      rcases insertReceipt_cases s.tables r now with ⟨-, he⟩ | ⟨-, he⟩ <;> rw [he]
    refine ⟨hi.single, fun hx hs => receipts_insertReceipt _ r now (.inl (hi.loaded hx hs)),
      fun order => ?_, fun hr => ?_⟩
    · refine (hi.stage order).keep (congrFun hlog order) ?_ ?_ (fun _ => .rfl)
        fun _ x hx hs => ⟨x, hx, hs⟩
      · unfold Tables.messages
        rw [hmail]
      · refine (statusOf_insertReceipt s.tables r now order).imp_right ?_
        rintro ⟨hnone, hst⟩
        refine ⟨?_, ?_⟩
        · rw [Tables.statusOf, hnone]
          simp
        · rw [hst]
          simp
    · rcases List.mem_cons.mp hr with rfl | hr
      · exact receipts_insertReceipt _ _ now (.inr rfl)
      · exact receipts_insertReceipt _ r now (.inl (hi.handled hr))
  | start m =>
    simp only [Receipts.step] at h
    split at h
    · cases h
      have hbegin : m.begin.sending = none := by cases m <;> rfl
      have hrec : ∀ order id, m.begin ≠ .record order id := by cases m <;> simp [Message.begin]
      refine ⟨fun order => (hi.single order).append hbegin, fun {x order} hx hs => ?_,
        fun order => ?_, hi.handled⟩
      · rcases List.mem_append.mp hx with hx | hx
        · exact hi.loaded hx hs
        · cases List.mem_singleton.mp hx
          cases hbegin.symm.trans hs
      · refine (hi.stage order).keep rfl rfl (.inl rfl) (fun id => ?_) fun _ x hx hs => ?_
        · rw [List.mem_append, List.mem_singleton]
          exact or_iff_left fun he => hrec order id he.symm
        · rcases List.mem_append.mp hx with hx | hx
          · exact ⟨x, hx, hs⟩
          · cases List.mem_singleton.mp hx
            cases hbegin.symm.trans hs
    · cases h
  | run pid reply =>
    obtain ⟨x, hx, h⟩ := Option.bind_eq_some_iff.mp h
    obtain ⟨q, hq, rfl⟩ := Option.map_eq_some_iff.mp h
    have hclear : ∀ order ∈ x.checking, ∀ z ∈ s.execs, z.sending ≠ some order := by
      have hc : ∀ order ∈ (s.execs[pid]?).bind Point.checking, ∀ z ∈ s.execs,
          z.sending ≠ some order := hok.2
      rwa [hx] at hc
    exact hi.call hx (point_step_cases hq) hok.1 fun order hc _ => hclear order hc
  | crash pid =>
    obtain ⟨x, hx, rfl⟩ := Option.map_eq_some_iff.mp h
    have hsure : x.recording = false := hok.1 x hx
    have hcalm : Calm s.tables s.tables x (.ended .crashed) :=
      calm_same hsure rfl fun _ hs => by cases hs
    have hdo : Does s.tables .ok x s.tables (.ended .crashed) := .calm hcalm
    exact hi.call hx hdo rfl fun _ _ hs => by cases hs
  | sweep cutoff orders =>
    simp only [Receipts.step] at h
    split at h
    · cases h
      exact ⟨hi.single, hi.loaded, hi.stage, hi.handled⟩
    · cases h

theorem inv_of_run {es : List Event} (h : Run Receipts.step Alone .empty es s) : Inv s :=
  h.invariant inv_empty fun _ _ _ hi hok hs => hi.step hok hs

/-! ### Sent once, and never lost -/

/-- What holds of a state. -/
structure Sound (s : System) : Prop where
  /-- The mailer has accepted an order's receipt once at most. -/
  once (order : OrderId) : (s.tables.messages order).length ≤ 1
  /-- A receipt is sent exactly when the log records that it was accepted. -/
  sent_iff {order : OrderId} {row : ReceiptRow} : s.tables.receipts order = some row →
    (row.status = .sent ↔ ∃ id, s.tables.deliveryLog order = some id ∧
      id ∈ s.tables.messages order)
  filed {r : Receipt} : r ∈ s.handled → ∃ row, s.tables.receipts r.orderId = some row

/-- What holds of a step. -/
structure Steady (s u : System) : Prop where
  kept {order : OrderId} {row : ReceiptRow} : s.tables.receipts order = some row →
    row.status = .sent → ∃ row', u.tables.receipts order = some row' ∧ row'.status = .sent
  /-- A receipt stays pending, or is recorded as sent, or is parked by an execution that was
  refused. -/
  leaves {order : OrderId} {row row' : ReceiptRow} : s.tables.receipts order = some row →
    row.status = .pending → u.tables.receipts order = some row' →
      row'.status = .pending ∨
      row'.status = .sent ∧ (∃ id, u.tables.deliveryLog order = some id ∧
        id ∈ u.tables.messages order) ∨
      row'.status = .parked ∧ ∃ pid : ℕ, ∃ why, s.execs[pid]? = some (.park order why) ∧
        u.execs[pid]? = some (.ended (.parked why))

theorem Inv.sound (hi : Inv s) : Sound s := by
  refine ⟨fun order => ?_, fun {order row} hrow => ?_, fun hr =>
    Option.ne_none_iff_exists'.mp (hi.handled hr)⟩
  · cases hi.stage order with
    | unsent _ hm _ _ => rw [hm]; exact Nat.zero_le 1
    | accepted _ hm _ _ => rw [hm]; exact le_rfl
    | recorded _ hm _ _ => rw [hm]; exact le_rfl
  · have hst : s.tables.statusOf order = some row.status := by rw [Tables.statusOf, hrow]; rfl
    cases hi.stage order with
    | unsent hl _ hr _ | accepted hl _ hr _ =>
      refine ⟨fun hs => absurd (hst.trans (congrArg some hs)) hr, ?_⟩
      rintro ⟨id, hid, -⟩
      cases hl.symm.trans hid
    | recorded hl hm hr _ =>
      refine ⟨fun _ => ⟨_, hl, by rw [hm]; exact List.mem_singleton_self _⟩, fun _ => ?_⟩
      exact Option.some.inj (hst.symm.trans hr)

/-- The status of a receipt after one call. -/
theorem status_of_call (hdo : Does t reply x t' y) (hlose : reply.loses = false)
    (order : OrderId) : t'.statusOf order = t.statusOf order ∨
      (∃ id, x = .record order id ∧ y = .ended (.sent id) ∧ t'.statusOf order ≠ some .pending ∧
        t'.statusOf order ≠ some .parked) ∨
      ∃ why, x = .park order why ∧ y = .ended (.parked why) ∧
        t'.statusOf order ≠ some .pending ∧ t'.statusOf order ≠ some .sent := by
  cases hdo with
  | lose h => cases hlose.symm.trans h
  | calm h => exact .inl (h.status order)
  | mail => exact .inl rfl
  | @park o why =>
    by_cases ho : order = o
    · subst ho
      refine .inr (.inr ⟨why, rfl, rfl, ?_, ?_⟩) <;>
        rw [Tables.park, statusOf_update, if_pos rfl] <;>
        cases t.receipts order <;> simp
    · exact .inl (by rw [Tables.park, statusOf_update, if_neg ho])
  | @record o id =>
    by_cases ho : order = o
    · subst ho
      refine .inr (.inl ⟨id, rfl, rfl, ?_, ?_⟩) <;>
        rw [Tables.record, statusOf_update, if_pos rfl] <;>
        cases t.receipts order <;> simp
    · exact .inl (by rw [Tables.record, statusOf_update, if_neg ho]; rfl)

/-- The status of a receipt after one step. -/
theorem status_of_step (hok : Alone s e) (h : Receipts.step s e = some u) (order : OrderId) :
    u.tables.statusOf order = s.tables.statusOf order ∨ s.tables.receipts order = none ∨
      ∃ pid : ℕ, ∃ x reply y, s.execs[pid]? = some x ∧ reply.loses = false ∧
        Does s.tables reply x u.tables y ∧ u.execs[pid]? = some y := by
  cases e with
  | deliver r now nudged =>
    cases h
    exact (statusOf_insertReceipt s.tables r now order).imp_right fun hc => .inl hc.1
  | start m =>
    simp only [Receipts.step] at h
    split at h <;> cases h
    exact .inl rfl
  | run pid reply =>
    obtain ⟨x, hx, h⟩ := Option.bind_eq_some_iff.mp h
    obtain ⟨q, hq, rfl⟩ := Option.map_eq_some_iff.mp h
    exact .inr (.inr ⟨pid, x, reply, q.2, hx, hok.1, point_step_cases hq,
      List.getElem?_set_self (List.getElem?_eq_some_iff.mp hx).1⟩)
  | crash pid =>
    obtain ⟨x, -, rfl⟩ := Option.map_eq_some_iff.mp h
    exact .inl rfl
  | sweep cutoff orders =>
    simp only [Receipts.step] at h
    split at h <;> cases h
    exact .inl rfl

theorem Inv.steady (hi : Inv s) (hok : Alone s e) (h : Receipts.step s e = some u) :
    Steady s u := by
  have hu := hi.step hok h
  have hstatus : ∀ {t : Tables} {order : OrderId} {row : ReceiptRow}, t.receipts order = some row →
      t.statusOf order = some row.status := fun hr => by rw [Tables.statusOf, hr]; rfl
  refine ⟨fun {order row} hrow hs => ?_, fun {order row row'} hrow hs hrow' => ?_⟩
  · have hsent : s.tables.statusOf order = some .sent := (hstatus hrow).trans (congrArg some hs)
    have hnone : ∀ x ∈ s.execs, x.sending ≠ some order := by
      cases hi.stage order with
      | unsent _ _ hr _ | accepted _ _ hr _ => exact absurd hsent hr
      | recorded _ _ _ hnone => exact hnone
    have hsame : u.tables.statusOf order = s.tables.statusOf order := by
      rcases status_of_step hok h order with hsame | hno | ⟨pid, x, reply, y, hx, hl, hdo, -⟩
      · exact hsame
      · cases hno.symm.trans hrow
      · have hx := List.mem_of_getElem? hx
        rcases status_of_call hdo hl order with hsame | ⟨id, rfl, -⟩ | ⟨why, rfl, -⟩
        · exact hsame
        · exact absurd rfl (hnone _ hx)
        · exact absurd rfl (hnone _ hx)
    rw [hsent] at hsame
    exact Option.map_eq_some_iff.mp hsame
  · have hpending : s.tables.statusOf order = some .pending :=
      (hstatus hrow).trans (congrArg some hs)
    have hu' := hstatus hrow'
    rcases status_of_step hok h order with hsame | hno | ⟨pid, x, reply, y, hx, hl, hdo, hy⟩
    · exact .inl (Option.some.inj (hu'.symm.trans (hsame.trans hpending)))
    · cases hno.symm.trans hrow
    · rcases status_of_call hdo hl order with hsame | ⟨id, rfl, rfl, hp, hk⟩ |
        ⟨why, rfl, rfl, hp, hk⟩
      · exact .inl (Option.some.inj (hu'.symm.trans (hsame.trans hpending)))
      · have hsent : row'.status = .sent := by
          rw [hu'] at hp hk
          cases hst : row'.status with
          | pending => exact absurd (congrArg some hst) hp
          | parked => exact absurd (congrArg some hst) hk
          | sent => rfl
        exact .inr (.inl ⟨hsent, (hu.sound.sent_iff hrow').mp hsent⟩)
      · have hparked : row'.status = .parked := by
          rw [hu'] at hp hk
          cases hst : row'.status with
          | pending => exact absurd (congrArg some hst) hp
          | sent => exact absurd (congrArg some hst) hk
          | parked => rfl
        exact .inr (.inr ⟨hparked, pid, why, hx, hy⟩)

/-- **Receipts are sent once and never lost**, in runs in which no two executions send at the same
time. -/
theorem receipts_sound {es : List Event} (h : Run Receipts.step Alone .empty es s) :
    Sound s ∧ ∀ e u, Alone s e → Receipts.step s e = some u → Steady s u :=
  have hi := inv_of_run h
  ⟨hi.sound, fun _ _ hok hs => hi.steady hok hs⟩

end

/-! ### Runs -/

def theReceipt : Receipt := ⟨"o", "u", "r", [], ⟨0, "EUR"⟩, 0⟩

/-- A settlement is handled, and its receipt rendered. -/
def rendered : List Event :=
  [.deliver theReceipt 0 true, .start (.render "o"), .run 0 .ok, .run 0 .ok, .run 0 .ok]

/-- The receipt is sent, and its message comes again. -/
def sentOnce : List Event :=
  rendered ++ [.start (.send "receipts/o.pdf" "o"), .run 1 .ok, .run 1 (.address "a"),
    .run 1 (.accepted "m"), .run 1 .ok, .start (.send "receipts/o.pdf" "o"), .run 2 .ok]

/-- The log stops the second execution. -/
theorem receipts_sound_sentOnce : ∃ s, Run Receipts.step Alone .empty sentOnce s ∧
    s.tables.statusOf "o" = some .sent ∧ s.execs[2]? = some (Point.ended (.duplicate "m")) ∧
      s.tables.messages "o" = ["m"] ∧ Sound s ∧
        ∀ e u, Alone s e → Receipts.step s e = some u → Steady s u := by
  obtain ⟨s, hs, hp⟩ : ∃ s, Run Receipts.step Alone .empty sentOnce s ∧
      decide (s.tables.statusOf "o" = some .sent ∧ s.execs[2]? = some (Point.ended (.duplicate "m")) ∧
        s.tables.messages "o" = ["m"]) = true := exists_run_of_execOk (by decide)
  obtain ⟨hsent, hstopped, hmessages⟩ := of_decide_eq_true hp
  exact ⟨s, hs, hsent, hstopped, hmessages, receipts_sound hs⟩

/-- The message is delivered again while its first execution goes on. -/
def sentTwice : List Event :=
  rendered ++ [.start (.send "receipts/o.pdf" "o"), .start (.send "receipts/o.pdf" "o"),
    .run 1 .ok, .run 2 .ok, .run 1 (.address "a"), .run 2 (.address "a"),
    .run 1 (.accepted "m"), .run 2 (.accepted "m'")]

theorem receipts_sent_twice :
    ¬ ∀ (es : List Event) (s : System), Run Receipts.step Sure .empty es s → Sound s := by
  intro h
  obtain ⟨s, hs, hp⟩ : ∃ s, Run Receipts.step Sure .empty sentTwice s ∧
      decide (2 ≤ (s.tables.messages "o").length) = true := exists_run_of_execOk (by decide)
  have htwice : 2 ≤ (s.tables.messages "o").length := of_decide_eq_true hp
  have honce := (h _ s hs).once "o"
  omega

end Notification.Receipts
