/-
Pages of orders: a customer's history, the newest first, and the kitchen's feed, the oldest first.

* `OrderRow`, `CancellationRow`, `joined` — the orders, each with its cancellation if there is one;
* `encodeCursor`, `decodeCursor` — where the next page goes on, as a text for the client;
* `listOrders`, `feed` — one page;
* `Reads` — pages read one after another, while the tables may change;
* `Exactly`, `pages_exact` — each order is read once, in order, and then there is no next page.

A cursor that was not handed out is malformed here, also where `json.loads` or `fromisoformat` would
make something of it.
-/
import SmartFoodOps.Lib.Base64
import SmartFoodOps.Lib.Datetime
import SmartFoodOps.Lib.JsonText
import SmartFoodOps.Lib.Paging
import SmartFoodOps.Order.Transitions
import Mathlib.Data.Prod.Lex
import Mathlib.Data.String.Basic
import Mathlib.Order.OrderDual

open Keyed

namespace Order

namespace History

/-! ### The tables -/

structure OrderRow where
  orderId : String
  userId : String
  restaurantId : String
  brandId : Option String
  status : OrderStatus
  placedAt : Datetime
  deriving DecidableEq

structure CancellationRow where
  orderId : String
  reason : CancelReason
  deriving DecidableEq

structure Db where
  orders : Table OrderRow String OrderRow.orderId
  cancellations : Table CancellationRow String CancellationRow.orderId

/-- A row of the outer join. -/
structure Entry where
  order : OrderRow
  cancelReason : Option CancelReason
  deriving DecidableEq

/-- `_joined`: most orders never cancel. -/
def joined (db : Db) : List Entry :=
  db.orders.rows.map fun o => ⟨o, (db.cancellations.find o.orderId).map CancellationRow.reason⟩

/-- What the rows are ordered by; the identifier decides between orders of the same microsecond. -/
abbrev Stamp := Datetime ×ₗ String

def Entry.stamp (e : Entry) : Stamp := toLex (e.order.placedAt, e.order.orderId)

/-! ### Cursors -/

def encodeCursor (placedAt : Datetime) (orderId : String) : String :=
  let raw := JsonText.dumpsPair (isoformat placedAt) orderId.toList
  String.ofList (Base64.encode (raw.map Char.toNat))

def decodeCursor (cursor : String) : Option (Datetime × String) :=
  (Base64.decode cursor.toList).bind fun raw =>
    if ∀ b ∈ raw, b < 128 then
      (JsonText.loadsPair (raw.map Char.ofNat)).bind fun p =>
        (fromisoformat p.1).map fun placedAt => (placedAt, String.ofList p.2)
    else none

/-- **A cursor is read as it was written.** -/
theorem decode_encode (placedAt : Datetime) (orderId : String) :
    decodeCursor (encodeCursor placedAt orderId) = some (placedAt, orderId) := by
  have hascii : ∀ b ∈ (JsonText.dumpsPair (isoformat placedAt) orderId.toList).map Char.toNat,
      b < 128 := by
    intro b hb
    obtain ⟨c, hc, rfl⟩ := List.mem_map.mp hb
    exact JsonText.ascii_dumpsPair _ _ c hc
  have hbytes : Base64.decode (Base64.encode
      ((JsonText.dumpsPair (isoformat placedAt) orderId.toList).map Char.toNat)) = some _ :=
    Base64.decode_encode fun b hb => (hascii b hb).trans (by decide)
  have hchars : ((JsonText.dumpsPair (isoformat placedAt) orderId.toList).map Char.toNat).map
      Char.ofNat = JsonText.dumpsPair (isoformat placedAt) orderId.toList := by
    rw [List.map_map]
    exact List.map_id'' Char.ofNat_toNat _
  unfold decodeCursor encodeCursor
  dsimp only
  rw [String.toList_ofList, hbytes, Option.bind_some, if_pos hascii, hchars,
    JsonText.loads_dumps, Option.bind_some]
  dsimp only
  rw [fromisoformat_isoformat, Option.map_some, String.ofList_toList]

/-! ### Pages -/

structure Reply where
  items : List Entry
  nextCursor : Option String

def cursorOf (s : Stamp) : String := encodeCursor (ofLex s).1 (ofLex s).2

/-- One page of the rows, from a place on. -/
def answer {γ : Type} [LinearOrder γ] (stamp : Entry → γ) (code : γ → String) (limit : ℕ)
    (rows : List Entry) (before : Option γ) : Reply :=
  let page := Paging.page stamp limit before rows
  ⟨page.items, page.next.map code⟩

/-- The orders of a customer. -/
def history (userId : String) (db : Db) : List Entry :=
  (joined db).filter fun e => e.order.userId = userId

/-- `list_orders` of the service and of the repo; nothing for a malformed cursor. -/
def listOrders (userId : String) (limit : ℕ) (db : Db) (cursor : Option String) : Option Reply :=
  match cursor with
  | none => some (answer Entry.stamp cursorOf limit (history userId db) none)
  | some cursor => (decodeCursor cursor).map fun c =>
      answer Entry.stamp cursorOf limit (history userId db) (some (toLex c))

/-- The restaurant of a claim, or the brand. -/
def OfClaim (claim : String) (o : OrderRow) : Prop :=
  o.restaurantId = claim ∨ o.brandId = some claim

instance (claim : String) (o : OrderRow) : Decidable (OfClaim claim o) :=
  inferInstanceAs (Decidable (_ ∨ _))

/-- The queues of a kitchen. -/
def queue (claim : String) (statuses : List OrderStatus) (db : Db) : List Entry :=
  (joined db).filter fun e => OfClaim claim e.order ∧ e.order.status ∈ statuses

/-- In the mirror, what comes later is smaller. -/
def Entry.mirrored (e : Entry) : Stampᵒᵈ := OrderDual.toDual e.stamp

/-- `feed` and `list_feed`. -/
def feed (claim : String) (statuses : List OrderStatus) (limit : ℕ) (db : Db)
    (cursor : Option String) : Option Reply :=
  let code (s : Stampᵒᵈ) : String := cursorOf (OrderDual.ofDual s)
  match cursor with
  | none => some (answer Entry.mirrored code limit (queue claim statuses db) none)
  | some cursor => (decodeCursor cursor).map fun c =>
      answer Entry.mirrored code limit (queue claim statuses db) (some (OrderDual.toDual (toLex c)))

/-! ### Page after page -/

/-- The pages that `list` answers from a cursor on, while the tables change by `R`. -/
inductive Reads (R : Db → Db → Prop) (list : Db → Option String → Option Reply) :
    Db → Option String → List Entry → Db → Prop
  | last {db : Db} {cursor : Option String} {reply : Reply} (h : list db cursor = some reply)
    (hnext : reply.nextCursor = none) : Reads R list db cursor reply.items db
  | more {db db' db'' : Db} {cursor : Option String} {reply : Reply} {c : String}
    {rest : List Entry} (h : list db cursor = some reply) (hnext : reply.nextCursor = some c)
    (hR : R db db') (hrest : Reads R list db' (some c) rest db'') :
    Reads R list db cursor (reply.items ++ rest) db''

/-- Orders are placed; those that are there stay as they are. -/
def Placing (db db' : Db) : Prop := ∀ o ∈ db.orders, o ∈ db'.orders

/-- Reading is exact: in order, whatever changes; what is there is read once, also while orders are
placed; and where nothing changes, that is all, and reading comes to its end. -/
structure Exactly (list : Db → Option String → Option Reply) (mine : OrderRow → Prop)
    (before : Entry → Entry → Prop) : Prop where
  ends : ∀ db, ∃ items, Reads Eq list db none items db
  sorted : ∀ R db items db', Reads R list db none items db' → items.Pairwise before
  once : ∀ db items db', Reads Placing list db none items db' → ∀ o ∈ db.orders, mine o →
    ∃ x ∈ items, x.order = o ∧ ∀ y ∈ items, y.order.orderId = o.orderId → y = x
  still : ∀ db items db', Reads Eq list db none items db' →
    ∀ o, (∃ x ∈ items, x.order = o) ↔ o ∈ db.orders ∧ mine o

theorem mem_joined {db : Db} {o : OrderRow} :
    (∃ x ∈ joined db, x.order = o) ↔ o ∈ db.orders := by
  unfold joined
  constructor
  · rintro ⟨x, hx, rfl⟩
    obtain ⟨o, ho, rfl⟩ := List.mem_map.mp hx
    exact ho
  · intro ho
    exact ⟨_, List.mem_map_of_mem ho, rfl⟩

theorem order_of_joined {db : Db} {x : Entry} (hx : x ∈ joined db) : x.order ∈ db.orders :=
  mem_joined.mp ⟨x, hx, rfl⟩

/-- The join has each order once. -/
theorem nodup_joined (db : Db) : ((joined db).map fun e => e.order.orderId).Nodup := by
  unfold joined
  rw [List.map_map]
  exact db.orders.distinct

section

variable {γ : Type} [LinearOrder γ] {stamp : Entry → γ} {code : γ → String} {limit : ℕ}
  {rows : Db → List Entry} {list : Db → Option String → Option Reply} {R : Db → Db → Prop}
  {db db' : Db} {cursor : Option String} {place : Option γ} {items : List Entry}
  {mine : OrderRow → Prop}

/-- A listing: its pages are pages of rows, and its cursors are places between them. -/
structure Lists (list : Db → Option String → Option Reply) (stamp : Entry → γ) (code : γ → String)
    (limit : ℕ) (rows : Db → List Entry) (mine : OrderRow → Prop) : Prop where
  start : ∀ db, list db none = some (answer stamp code limit (rows db) none)
  next : ∀ db c, list db (some (code c)) = some (answer stamp code limit (rows db) (some c))
  mem : ∀ db x, x ∈ rows db ↔ x ∈ joined db ∧ mine x.order
  stamped : ∀ db, Stamped stamp (rows db)
  stampOf : ∀ x y : Entry, x.order = y.order → stamp x = stamp y
  idOf : ∀ x y : Entry, stamp x = stamp y → x.order.orderId = y.order.orderId

/-- A cursor that stands for a place, or for the beginning. -/
inductive StandsFor (code : γ → String) : Option String → Option γ → Prop
  | start : StandsFor code none none
  | cursor (c : γ) : StandsFor code (some (code c)) (some c)

theorem Lists.page (h : Lists list stamp code limit rows mine) (hc : StandsFor code cursor place) :
    list db cursor = some (answer stamp code limit (rows db) place) := by
  cases hc with
  | start => exact h.start db
  | cursor c => exact h.next db c

theorem walk_of_reads (h : Lists list stamp code limit rows mine)
    (hreads : Reads R list db cursor items db') (hc : StandsFor code cursor place) :
    Paging.Walk stamp rows R limit db place items db' := by
  induction hreads generalizing place with
  | last hlist hnext =>
    rw [h.page hc] at hlist
    obtain rfl := Option.some.inj hlist
    exact .last (Option.map_eq_none_iff.mp hnext)
  | more hlist hnext hR _ ih =>
    rw [h.page hc] at hlist
    obtain rfl := Option.some.inj hlist
    obtain ⟨c, hpage, rfl⟩ := Option.map_eq_some_iff.mp hnext
    exact .more hpage hR (ih (.cursor c))

theorem reads_of_walk (h : Lists list stamp code limit rows mine)
    (hwalk : Paging.Walk stamp rows R limit db place items db') (hc : StandsFor code cursor place) :
    Reads R list db cursor items db' := by
  induction hwalk generalizing cursor with
  | last hnext => exact .last (h.page hc) (Option.map_eq_none_iff.mpr hnext)
  | @more s s' s'' before c rest hnext hR _ ih =>
    exact .more (h.page hc) (Option.map_eq_some_iff.mpr ⟨c, hnext, rfl⟩) hR (ih (.cursor c))

theorem Reads.mono {R' : Db → Db → Prop} (h : Reads R list db cursor items db')
    (hR : ∀ s s', R s s' → R' s s') : Reads R' list db cursor items db' := by
  induction h with
  | last hlist hnext => exact .last hlist hnext
  | more hlist hnext hstep _ ih => exact .more hlist hnext (hR _ _ hstep) ih

theorem placing_of_eq {s s' : Db} (h : s = s') : Placing s s' := by
  rw [h]
  exact fun _ ho => ho

/-- What is read was there at some time. -/
theorem there_of_walk (hrefl : ∀ s, R s s) (htrans : ∀ s t u, R s t → R t u → R s u)
    (hwalk : Paging.Walk stamp rows R limit db place items db') :
    ∀ x ∈ items, ∃ s, R db s ∧ x ∈ rows s := by
  induction hwalk with
  | @last s before hnext => exact fun x hx => ⟨s, hrefl s, (Paging.mem_of_mem_page hx).1⟩
  | @more s s' s'' before c rest hnext hR _ ih =>
    intro x hx
    rcases List.mem_append.mp hx with hx | hx
    · exact ⟨s, hrefl s, (Paging.mem_of_mem_page hx).1⟩
    · obtain ⟨t, ht, hmem⟩ := ih x hx
      exact ⟨t, htrans s s' t hR ht, hmem⟩

/-- What was there from the beginning is read. -/
theorem Lists.read (h : Lists list stamp code limit rows mine) (hlimit : 0 < limit)
    (hwalk : Paging.Walk stamp rows Placing limit db none items db') {o : OrderRow}
    (ho : o ∈ db.orders) (hmine : mine o) : ∃ x ∈ items, x.order.orderId = o.orderId := by
  have hkeep : ∀ s s' : Db, Placing s s' → ∀ x ∈ rows s, ∃ y ∈ rows s', stamp y = stamp x := by
    intro s s' hR x hx
    obtain ⟨hmem, hmine⟩ := (h.mem s x).mp hx
    obtain ⟨y, hy, hyx⟩ := mem_joined.mpr (hR _ (order_of_joined hmem))
    exact ⟨y, (h.mem s' y).mpr ⟨hy, by rwa [hyx]⟩, h.stampOf y x hyx⟩
  obtain ⟨e, he, rfl⟩ := mem_joined.mpr ho
  have hbelow : e ∈ Paging.below stamp none (rows db) :=
    Paging.mem_below.mpr ⟨(h.mem db e).mpr ⟨he, hmine⟩, by simp⟩
  obtain ⟨x, hx, hstamp⟩ := Paging.mem_walk hwalk h.stamped hlimit hkeep hbelow
  exact ⟨x, hx, h.idOf x e hstamp⟩

/-- Under an identifier that was there, nothing else is read. -/
theorem Lists.same (h : Lists list stamp code limit rows mine)
    (hwalk : Paging.Walk stamp rows Placing limit db place items db') {o : OrderRow}
    (ho : o ∈ db.orders) {x : Entry} (hx : x ∈ items) (hid : x.order.orderId = o.orderId) :
    x.order = o := by
  obtain ⟨s, hs, hmem⟩ := there_of_walk (fun _ _ ho => ho)
    (fun _ _ _ hst htu o ho => htu o (hst o ho)) hwalk x hx
  exact Table.eq_of_key (order_of_joined ((h.mem s x).mp hmem).1) (hs o ho) hid

/-- **A listing is exact.** -/
theorem Lists.exactly (h : Lists list stamp code limit rows mine) (hlimit : 0 < limit) :
    Exactly list mine fun x y => stamp y < stamp x where
  ends := by
    intro db
    obtain ⟨items, hwalk⟩ := Paging.exists_walk (R := Eq) h.stamped hlimit (Eq.refl db) none
    exact ⟨items, reads_of_walk h hwalk .start⟩
  sorted := fun _ _ _ _ hreads => Paging.pairwise_walk (walk_of_reads h hreads .start) h.stamped
  once := by
    intro db items db' hreads o ho hmine
    have hwalk := walk_of_reads h hreads .start
    have hnodup : (items.map stamp).Nodup :=
      List.pairwise_map.mpr ((Paging.pairwise_walk hwalk h.stamped).imp fun hlt => hlt.ne')
    obtain ⟨x, hx, hid⟩ := h.read hlimit hwalk ho hmine
    have hxo := h.same hwalk ho hx hid
    refine ⟨x, hx, hxo, fun y hy hyid => ?_⟩
    have hyo := h.same hwalk ho hy hyid
    exact List.inj_on_of_nodup_map hnodup hy hx (h.stampOf y x (hyo.trans hxo.symm))
  still := by
    intro db items db' hreads o
    have hwalk := walk_of_reads h hreads .start
    have hplacing := walk_of_reads h (hreads.mono fun _ _ => placing_of_eq) .start
    constructor
    · rintro ⟨x, hx, rfl⟩
      obtain ⟨s, rfl, hrow⟩ := there_of_walk (fun _ => rfl) (fun _ _ _ => Eq.trans) hwalk x hx
      obtain ⟨hmem, hmine⟩ := (h.mem db x).mp hrow
      exact ⟨order_of_joined hmem, hmine⟩
    · rintro ⟨ho, hmine⟩
      obtain ⟨x, hx, hid⟩ := h.read hlimit hplacing ho hmine
      exact ⟨x, hx, h.same hplacing ho hx hid⟩

end

/-! ### The two listings -/

theorem decode_cursorOf (s : Stamp) :
    decodeCursor (cursorOf s) = some ((ofLex s).1, (ofLex s).2) := decode_encode _ _

theorem id_of_stamp {x y : Entry} (h : x.stamp = y.stamp) : x.order.orderId = y.order.orderId :=
  congrArg (fun s => (ofLex s).2) h

theorem stamp_of_order {x y : Entry} (h : x.order = y.order) : x.stamp = y.stamp := by
  unfold Entry.stamp
  rw [h]

theorem eq_of_stamp {db : Db} {x y : Entry} (hx : x ∈ joined db) (hy : y ∈ joined db)
    (h : x.stamp = y.stamp) : x = y :=
  List.inj_on_of_nodup_map (nodup_joined db) hx hy (id_of_stamp h)

theorem lists_history (userId : String) (limit : ℕ) :
    Lists (listOrders userId limit) Entry.stamp cursorOf limit (history userId)
      fun o => o.userId = userId where
  start := fun _ => rfl
  next := by
    intro db c
    unfold listOrders
    dsimp only
    rw [decode_cursorOf]
    rfl
  mem := by
    intro db x
    unfold history
    rw [List.mem_filter, decide_eq_true_eq]
  stamped := fun db => ⟨((nodup_joined db).of_map _).filter _, fun x hx y hy h =>
    eq_of_stamp (List.mem_of_mem_filter hx) (List.mem_of_mem_filter hy) h⟩
  stampOf := fun _ _ => stamp_of_order
  idOf := fun _ _ => id_of_stamp

theorem lists_queue (claim : String) (statuses : List OrderStatus) (limit : ℕ) :
    Lists (feed claim statuses limit) Entry.mirrored (fun s => cursorOf (OrderDual.ofDual s)) limit
      (queue claim statuses) fun o => OfClaim claim o ∧ o.status ∈ statuses where
  start := fun _ => rfl
  next := by
    intro db c
    unfold feed
    dsimp only
    rw [decode_cursorOf]
    rfl
  mem := by
    intro db x
    unfold queue
    rw [List.mem_filter, decide_eq_true_eq]
  stamped := fun db => ⟨((nodup_joined db).of_map _).filter _, fun x hx y hy h =>
    eq_of_stamp (List.mem_of_mem_filter hx) (List.mem_of_mem_filter hy)
      (OrderDual.toDual_inj.mp h)⟩
  stampOf := fun _ _ h => congrArg OrderDual.toDual (stamp_of_order h)
  idOf := fun _ _ h => id_of_stamp (OrderDual.toDual_inj.mp h)

/-- **Paging is exact**, for a customer's history and for a kitchen's feed. -/
theorem pages_exact {limit : ℕ} (hlimit : 0 < limit) :
    (∀ userId, Exactly (listOrders userId limit) (fun o => o.userId = userId)
      fun x y => y.stamp < x.stamp) ∧
    ∀ claim statuses, Exactly (feed claim statuses limit)
      (fun o => OfClaim claim o ∧ o.status ∈ statuses) fun x y => x.stamp < y.stamp :=
  ⟨fun userId => (lists_history userId limit).exactly hlimit,
    fun claim statuses => (lists_queue claim statuses limit).exactly hlimit⟩

/-! ### Two orders of the same microsecond -/

def noon : Datetime := ⟨2026, 8, 24, 12, 0, 0, 5, by decide⟩

def twins : Db where
  orders := ⟨[⟨"a", "u", "r", none, .confirmed, noon⟩, ⟨"b", "u", "r", none, .confirmed, noon⟩],
    by decide⟩
  cancellations := .empty

/-- One on each page. -/
theorem pages_of_twins : ∃ items, Reads Eq (listOrders "u" 1) twins none items twins ∧
    ∀ o, (∃ x ∈ items, x.order = o) ↔ o ∈ twins.orders ∧ o.userId = "u" := by
  have hexact := (pages_exact (by decide : 0 < 1)).1 "u"
  obtain ⟨items, hreads⟩ := hexact.ends twins
  exact ⟨items, hreads, hexact.still twins items twins hreads⟩

end History

end Order
